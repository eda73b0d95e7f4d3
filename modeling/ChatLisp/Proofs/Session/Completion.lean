import ChatLisp.Completion
import ChatLisp.Proofs.Session.Pasting
import ChatLisp.Proofs.Token.LastSymbol
import ChatLisp.Proofs.Token.Munch

/-!
This module contains what is offered to complete a symbol. All names that programs bind are read as
one symbol, so a completion that is put behind the cursor changes the symbol before it and no other
token.
-/

namespace ChatLisp

namespace Completion

variable {store : Store} {scope : ScopeId} {front back text name completion : String}
  {before : List Token} {span : Span}

/--
The last token of the text is a symbol of this name, and nothing follows it.
-/
structure EndsWith (text : String) (before : List Token) (name : String) (span : Span) : Prop where
  tokens : tokenize text = .ok (before ++ [⟨.symbol name, span⟩])
  stop : span.stop = text.utf8ByteSize

theorem endsWith_iff_suffix (h : tokenize text = .ok (before ++ [⟨.symbol name, span⟩])) :
    EndsWith text before name span ↔ name.toList <:+ text.toList := by
  rw [(cut_of_go h).suffix_iff, Nat.zero_add, byteLength_toList]
  exact ⟨EndsWith.stop, fun hstop => ⟨h, hstop⟩⟩

theorem lastSymbol?_eq_some_iff :
    lastSymbol? text = some name ↔ ∃ before span, EndsWith text before name span := by
  constructor
  . intro h
    rw [lastSymbol?] at h
    split at h
    . cases h
    . next tokens htokens =>
      split at h
      . next last span hlast =>
        obtain ⟨before, rfl⟩ := List.getLast?_eq_some_iff.mp hlast
        split at h
        . next hsuffix =>
          cases h
          rw [List.isSuffixOf_iff_suffix] at hsuffix
          exact ⟨before, span, (endsWith_iff_suffix htokens).mpr hsuffix⟩
        . cases h
      . cases h
  . rintro ⟨before, span, h⟩
    have hsuffix := (endsWith_iff_suffix h.tokens).mp h
    rw [lastSymbol?, h.tokens]
    simp [hsuffix]

theorem remainder?_eq_some_iff :
    remainder? front name = some completion ↔ completion ≠ "" ∧ front ++ completion = name := by
  rw [remainder?, Option.bind_eq_some_iff]
  simp only [List.isPrefixOf?_eq_some_iff_append_eq]
  constructor
  . rintro ⟨rest, hrest, h⟩
    split at h
    . cases h
    . next hne =>
      cases h
      refine ⟨by simpa using hne, ?_⟩
      rw [← String.toList_inj, String.toList_append, String.toList_ofList, hrest]
  . rintro ⟨hne, rfl⟩
    refine ⟨completion.toList, (String.toList_append ..).symm, ?_⟩
    rw [if_neg (by simpa using hne), String.ofList_toList]

theorem mem_knownNames_iff :
    name ∈ knownNames store scope ↔
      (store.lookup? scope name).isSome ∨ name ∈ specialForms := by
  simp [knownNames, Store.mem_names_iff]

theorem mem_candidates_iff :
    completion ∈ candidates store scope (front ++ back) front.utf8ByteSize ↔
      ∃ before name span, EndsWith front before name span ∧ completion ≠ "" ∧
        name ++ completion ∈ knownNames store scope := by
  have hfront : String.ofList (takeBytes front.utf8ByteSize (front ++ back).toList) = front := by
    rw [← byteLength_toList, String.toList_append, takeBytes_byteLength_append,
      String.ofList_toList]
  rw [candidates, hfront]
  cases hlast : lastSymbol? front with
  | none =>
    constructor
    . nofun
    . rintro ⟨before, name, span, hends, _⟩
      rw [lastSymbol?_eq_some_iff.mpr ⟨before, span, hends⟩] at hlast
      cases hlast
  | some last =>
    obtain ⟨before, span, hends⟩ := lastSymbol?_eq_some_iff.mp hlast
    simp only [List.mem_mergeSort, List.mem_filterMap, remainder?_eq_some_iff]
    constructor
    . rintro ⟨name, hname, hne, rfl⟩
      exact ⟨before, last, span, hends, hne, hname⟩
    . rintro ⟨before', name, span', hends', hne, hname⟩
      cases hlast.symm.trans (lastSymbol?_eq_some_iff.mpr ⟨before', span', hends'⟩)
      exact ⟨_, hname, hne, rfl⟩

theorem EndsWith.append (h : EndsWith text before name span)
    (hname : isSymbolName (name ++ completion).toList) :
    EndsWith (text ++ completion) before (name ++ completion)
      ⟨span.start, span.stop + completion.utf8ByteSize⟩ := by
  have hcut := cut_of_go h.tokens
  have hstop : span.stop = 0 + byteLength text.toList := by
    rw [h.stop, Nat.zero_add, byteLength_toList]
  rw [String.toList_append] at hname
  have hgrown := (hcut.extend_symbol hstop hname).go_eq
  constructor
  . rw [String.ofList_toList, byteLength_toList, ← String.toList_append] at hgrown
    exact hgrown
  . rw [h.stop, String.utf8ByteSize_append]

end Completion

namespace Session

variable {session : Session}

theorem Reached.isSymbolName_of_lookup? {allowed : String → Prop} (h : session.Reached allowed)
    {scope : ScopeId} {name : String} (hname : (session.store.lookup? scope name).isSome) :
    isSymbolName name.toList := by
  have hobeys := h.obeys spelled_globals fun message _ depth => spelled_exprs message depth
  obtain ⟨value, hvalue⟩ := Option.isSome_iff_exists.mp hname
  obtain ⟨holder, hown⟩ := Store.exists_own?_of_lookup? hvalue
  exact hobeys.store.name hown

/--
What is offered at the end of a symbol is exactly what makes a name of it that means something in
the scope, or a special form. Nothing is offered anywhere else. An offer that is accepted changes
the symbol, and the tokens before it stay what they are.
-/
theorem complete_iff (h : session.Reached fun _ => True) (scope : ScopeId) (front back : String) :
    let offer := Completion.complete session.store scope (front ++ back) front.utf8ByteSize
    offer.start = front.utf8ByteSize ∧
    ∀ completion,
      (completion ∈ offer.candidates ↔
        ∃ before name span, tokenize front = .ok (before ++ [⟨.symbol name, span⟩]) ∧
          span.stop = front.utf8ByteSize ∧ completion ≠ "" ∧
          ((session.store.lookup? scope (name ++ completion)).isSome ∨
            name ++ completion = "lambda" ∨ name ++ completion = "setq")) ∧
      (completion ∈ offer.candidates →
        ∃ before name start,
          tokenize front = .ok (before ++ [⟨.symbol name, ⟨start, front.utf8ByteSize⟩⟩]) ∧
          tokenize (front ++ completion) = .ok (before ++
            [⟨.symbol (name ++ completion), ⟨start, (front ++ completion).utf8ByteSize⟩⟩])) := by
  intro offer
  refine ⟨rfl, fun completion => ?_⟩
  have hmem : completion ∈ offer.candidates ↔ _ := Completion.mem_candidates_iff
  simp only [Completion.mem_knownNames_iff, specialForms, List.mem_cons, List.not_mem_nil,
    or_false] at hmem
  constructor
  . rw [hmem]
    constructor
    . rintro ⟨before, name, span, hends, hrest⟩
      exact ⟨before, name, span, hends.tokens, hends.stop, hrest⟩
    . rintro ⟨before, name, span, htokens, hstop, hrest⟩
      exact ⟨before, name, span, ⟨htokens, hstop⟩, hrest⟩
  . intro hoffered
    obtain ⟨before, name, ⟨start, stop⟩, hends, _, hname⟩ := hmem.mp hoffered
    have hsymbol : isSymbolName (name ++ completion).toList := by
      obtain hbound | hform | hform := hname
      . exact h.isSymbolName_of_lookup? hbound
      . rw [hform]
        decide
      . rw [hform]
        decide
    have hgrown := hends.append hsymbol
    obtain ⟨htokens, rfl⟩ := hends
    refine ⟨before, name, start, htokens, ?_⟩
    rw [hgrown.tokens, String.utf8ByteSize_append]

/--
The name that a program has bound completes the symbol behind a string and a character that is no
token of any kind.
-/
theorem complete_iff_bound :
    let session := (start.trigger 3 "(setq counter \"\")").session
    let front := "(\"(co\" é co"
    let offer := Completion.complete session.store session.scope (front ++ "x)") 12
    (session.Reached fun _ => True) ∧ offer.start = 12 ∧ "unter" ∈ offer.candidates ∧
      ∃ before name start, tokenize front = .ok (before ++ [⟨.symbol name, ⟨start, 12⟩⟩]) ∧
        tokenize (front ++ "unter") = .ok (before ++
          [⟨.symbol (name ++ "unter"), ⟨start, 17⟩⟩]) := by
  intro session front offer
  have hreached : session.Reached fun _ => True := .trigger 3 .start trivial
  obtain ⟨hstart, hoffer⟩ := complete_iff hreached session.scope front "x)"
  obtain ⟨hiff, haccepted⟩ := hoffer "unter"
  have htokens : tokenize front = .ok ([⟨.leftParen, ⟨0, 1⟩⟩, ⟨.string "(co", ⟨1, 6⟩⟩,
      ⟨.invalid "é", ⟨7, 9⟩⟩] ++ [⟨.symbol "co", ⟨10, 12⟩⟩]) := by
    cbv
  have hown : session.store.own? session.scope ("co" ++ "unter") = some (.string "") := by
    simp only [session, session_trigger]
    cbv
  have hbound : (session.store.lookup? session.scope ("co" ++ "unter")).isSome := by
    rw [Store.lookup?_eq, hown]
    rfl
  have hmem := hiff.mpr ⟨_, _, _, htokens, rfl, by decide, .inl hbound⟩
  exact ⟨hreached, hstart, hmem, haccepted hmem⟩

end Session

end ChatLisp
