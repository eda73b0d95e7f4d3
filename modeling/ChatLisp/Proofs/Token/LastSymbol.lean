import ChatLisp.Proofs.Token.Joining

/-!
This module contains what is known of a text whose last token is a symbol. Only blanks can follow
the symbol, and if there are none, the text can go on with it: a longer symbol takes the place of
the last token, and the other tokens stay what they are.
-/

namespace ChatLisp

theorem Lexeme.eq_symbol_of_kind? {lexeme : Lexeme} {name : String}
    (h : lexeme.kind? = some (.symbol name)) :
    lexeme = .symbol name.toList := by
  cases lexeme with
  | symbol chars =>
    cases h
    rw [String.toList_ofList]
  | digits run =>
    obtain ⟨_, _, hkind⟩ := Option.map_eq_some_iff.mp h
    cases hkind
  | _ => cases h

namespace Cut

variable {start : Nat} {cs : List Char} {tokens before : List Token} {name : String} {span : Span}

theorem go_eq (h : Cut start cs tokens) : tokenize.go start cs = .ok tokens := by
  induction h with
  | nil start => rw [tokenize.go]
  | blank hc _ ih => rw [go_blank hc, ih]
  | token hc hfirst hkind _ ih =>
    rw [go_lexeme hc hfirst hkind, ih]
    rfl

theorem isBlank_of_nil (h : Cut start cs []) : ∀ c ∈ cs, isBlank c := by
  generalize htokens : ([] : List Token) = tokens at h
  induction h with
  | nil => exact List.forall_mem_nil _
  | blank hc _ ih => exact List.forall_mem_cons.mpr ⟨hc, ih htokens⟩
  | token => cases htokens

theorem exists_blanks (h : Cut start cs (before ++ [⟨.symbol name, span⟩])) :
    ∃ front blanks, cs = front ++ name.toList ++ blanks ∧ (∀ c ∈ blanks, isBlank c) ∧
      span.stop = start + byteLength (front ++ name.toList) := by
  generalize htokens : before ++ [⟨.symbol name, span⟩] = tokens at h
  induction h generalizing before with
  | nil => simp at htokens
  | @blank start c rest tokens _ _ ih =>
    obtain ⟨front, blanks, rfl, hblanks, hstop⟩ := ih htokens
    exact ⟨c :: front, blanks, rfl, hblanks, by rw [hstop]; simp [Nat.add_assoc]⟩
  | @token start c rest left lexeme kind tokens hc hfirst hkind hleft ih =>
    rw [← Lexeme.chars_append_of_first hfirst]
    cases before with
    | nil =>
      cases htokens
      cases Lexeme.eq_symbol_of_kind? hkind
      -- No token is cut from what is left, so it consists of blanks.
      exact ⟨[], left, rfl, hleft.isBlank_of_nil, rfl⟩
    | cons token before =>
      obtain ⟨-, htokens⟩ := List.cons.inj htokens
      obtain ⟨front, blanks, rfl, hblanks, hstop⟩ := ih htokens
      refine ⟨lexeme.chars ++ front, blanks, by simp, hblanks, ?_⟩
      rw [hstop]
      simp [Nat.add_assoc]

theorem suffix_iff (h : Cut start cs (before ++ [⟨.symbol name, span⟩])) :
    name.toList <:+ cs ↔ span.stop = start + byteLength cs := by
  have hname : isSymbolName name.toList :=
    isLexical_of_go h.go_eq ⟨.symbol name, span⟩ (by simp)
  obtain ⟨front, blanks, rfl, hblanks, hstop⟩ := h.exists_blanks
  constructor
  . intro hsuffix
    rcases List.eq_nil_or_concat blanks with rfl | ⟨blanks, last, rfl⟩
    . simpa using hstop
    . rw [List.concat_eq_append, ← List.append_assoc, List.suffix_concat_iff] at hsuffix
      rcases hsuffix with hnil | ⟨init, hinit, _⟩
      . rw [hnil] at hname
        cases hname
      . have hpart := isSymbolPart_of_mem_name hname last (by simp [hinit])
        have hblank := hblanks last (by simp)
        rw [isBlank_eq_false_of_isSymbolPart hpart] at hblank
        cases hblank
  . intro hstop'
    have hnil : blanks = [] := by
      rw [← byteLength_eq_zero_iff]
      simp only [byteLength_append] at hstop hstop'
      omega
    rw [hnil, List.append_nil]
    exact List.suffix_append front name.toList

/--
If the text goes on with the symbol that ends it, that symbol is the only token that changes.
-/
theorem extend_symbol (h : Cut start cs (before ++ [⟨.symbol name, span⟩]))
    (hstop : span.stop = start + byteLength cs) {more : List Char}
    (hname : isSymbolName (name.toList ++ more)) :
    Cut start (cs ++ more) (before ++
      [⟨.symbol (name ++ String.ofList more), ⟨span.start, span.stop + byteLength more⟩⟩]) := by
  generalize htokens : before ++ [⟨.symbol name, span⟩] = tokens at h
  induction h generalizing before with
  | nil => simp at htokens
  | @blank start c rest tokens hc _ ih =>
    rw [byteLength_cons, ← Nat.add_assoc] at hstop
    exact .blank hc (ih hstop htokens)
  | @token start c rest left lexeme kind tokens hc hfirst hkind hleft ih =>
    have hchars := Lexeme.chars_append_of_first hfirst
    rw [← hchars, byteLength_append, ← Nat.add_assoc] at hstop
    cases before with
    | nil =>
      cases htokens
      cases Lexeme.eq_symbol_of_kind? hkind
      -- The last token takes all that is left of the text, and so it can grow.
      have hnil : left = [] := by
        rw [← byteLength_eq_zero_iff]
        dsimp only at hstop
        omega
      subst hnil
      have hword : c :: rest = name.toList := by rw [← hchars, Lexeme.chars, List.append_nil]
      have hgrown : c :: (rest ++ more) = name.toList ++ more := by
        rw [← List.cons_append, hword]
      rw [← hgrown] at hname
      have hfirst' := Lexeme.first_symbol hname breaks_nil
      rw [List.append_nil] at hfirst'
      have hcut : Cut start _ _ := .token hc hfirst' rfl (.nil _)
      rw [Lexeme.chars, hgrown, String.ofList_append, String.ofList_toList, byteLength_append,
        ← Nat.add_assoc] at hcut
      rw [hword]
      exact hcut
    | cons token before =>
      obtain ⟨htoken, hlater⟩ := List.cons.inj htokens
      subst htoken
      have hne : left ≠ [] := by
        rintro rfl
        cases hleft
        simp at hlater
      have hfirst' : Lexeme.first c (rest ++ more) = (lexeme, left ++ more) :=
        Lexeme.first_append (fun hnil => absurd hnil hne) hfirst fun _ _ _ => hne
      exact .token hc hfirst' hkind (ih hstop hlater)

end Cut

end ChatLisp
