import ChatLisp.Proofs.Program.Depth
import ChatLisp.Proofs.Session.Reached

/-!
This module contains the messages without `lambda`. As long as a session gets no others, no value in
it holds a closure. So nothing is ever evaluated but what is written in the messages, and each of
them is answered at a depth that can be read off its text.
-/

namespace ChatLisp

namespace Expr

/--
The depth that suffices to evaluate the expression if no closure is called.
-/
def height : Expr → Nat
  | cons car cdr => max car.height cdr.height + 1
  | _ => 1

theorem height_pos (e : Expr) : 0 < e.height := by
  cases e <;> simp [height]

theorem height_lt_of_items? {e : Expr} {items : List Expr} (hitems : e.items? = some items) :
    ∀ item ∈ items, item.height < e.height := by
  rw [eq_ofList_of_items? hitems]
  clear hitems
  induction items with
  | nil => exact List.forall_mem_nil _
  | cons item items ih =>
    simp only [List.forall_mem_cons, ofList_cons, height]
    refine ⟨by omega, ?_⟩
    intro other hother
    have := ih other hother
    omega

theorem isPhrase_cons {car cdr : Expr} :
    (cons car cdr).IsPhrase ↔ car.IsElem ∧ cdr.IsElem := by
  simp [IsPhrase, IsElem]

theorem not_isPhrase_sequence (exprs : List Expr) : ¬ (sequence exprs).IsPhrase := by
  simp [IsPhrase, IsElem]

theorem symbols_ofListWithTail (items : List Expr) (tail : Expr) :
    (ofListWithTail items tail).symbols = items.flatMap symbols ++ tail.symbols := by
  induction items with
  | nil => rfl
  | cons item items ih =>
    rw [ofListWithTail_cons, symbols, ih, List.flatMap_cons, List.append_assoc]

end Expr

namespace Grammar

mutual

theorem Elem.mem_kinds_of_mem_symbols (elem : Elem) {name : String}
    (h : name ∈ elem.expr.symbols) :
    .symbol name ∈ elem.kinds := by
  match elem with
  | .symbol _ => simpa [Elem.expr, Elem.kinds, Expr.symbols] using h
  | .integer _ => cases h
  | .string _ => cases h
  | .list elems =>
    rw [Elem.expr, Expr.symbols_ofList] at h
    have := elems.mem_kinds_of_mem_symbols h
    simp [Elem.kinds, this]
  | .dotted first more tail =>
    rw [Elem.expr, Expr.symbols_ofListWithTail, List.flatMap_cons, List.append_assoc,
      List.mem_append, List.mem_append] at h
    simp only [Elem.kinds, List.mem_cons, List.mem_append]
    obtain h | h | h := h
    . have := first.mem_kinds_of_mem_symbols h
      simp [this]
    . have := more.mem_kinds_of_mem_symbols h
      simp [this]
    . have := tail.mem_kinds_of_mem_symbols h
      simp [this]
  | .quoted phrase => exact List.mem_cons_of_mem _ (phrase.mem_kinds_of_mem_symbols h)

theorem Elems.mem_kinds_of_mem_symbols (elems : Elems) {name : String}
    (h : name ∈ elems.exprs.flatMap Expr.symbols) :
    .symbol name ∈ elems.kinds := by
  match elems with
  | .nil => cases h
  | .cons first more =>
    rw [Elems.exprs, List.flatMap_cons, List.mem_append] at h
    rw [Elems.kinds, List.mem_append]
    exact h.imp first.mem_kinds_of_mem_symbols more.mem_kinds_of_mem_symbols

theorem Phrase.mem_kinds_of_mem_symbols (phrase : Phrase) {name : String}
    (h : name ∈ phrase.expr.symbols) :
    .symbol name ∈ phrase.kinds := by
  match phrase with
  | .dot => cases h
  | .elem elem => exact elem.mem_kinds_of_mem_symbols h

end

end Grammar

namespace Program

/--
The symbol `lambda` is not among the tokens of the text. A text that is refused has none.
-/
def LambdaFree (text : String) : Prop :=
  ∀ tokens ∈ (tokenize text).toOption, .symbol "lambda" ∉ tokens.map Token.kind

theorem LambdaFree.not_mem_symbols {text : String} (h : LambdaFree text) :
    ∀ e ∈ exprs text, "lambda" ∉ e.symbols := by
  unfold exprs
  split
  . next read hparse =>
    obtain ⟨tokens, htokens, hphrases⟩ := exists_phrase_of_parse hparse
    intro e he hname
    obtain ⟨phrase, rfl, hkinds⟩ := hphrases e he
    apply h tokens (by rw [htokens]; rfl)
    exact hkinds _ (phrase.mem_kinds_of_mem_symbols hname)
  . exact List.forall_mem_nil _

/--
The depth that suffices to evaluate a text if no closure is called.
-/
def height (text : String) : Nat :=
  (Expr.ofList (exprs text)).height

end Program

namespace Eval

/--
Code makes no closures, and so there are none to be called. An evaluation gives up only if it is
granted less than the height of its code, which `mayGiveUp` allows.
-/
def Invariant.closureless (mayGiveUp : Prop) : Invariant where
  Code depth e := e.IsPhrase ∧ "lambda" ∉ e.symbols ∧ (mayGiveUp ∨ e.height ≤ depth)
  Value e := e.captures = []
  Name _ := True
  Applied _ _ := True
  MayGiveUp := mayGiveUp
  giveUp := by
    rintro e ⟨_, _, hmay | hheight⟩
    . exact hmay
    . exact absurd e.height_pos (Nat.not_lt.mpr hheight)
  atom := fun ⟨hphrase, _⟩ _ => hphrase.captures_eq_nil
  quoted := fun ⟨hphrase, _⟩ => hphrase.captures_eq_nil
  member := fun ⟨hphrase, _⟩ => absurd hphrase (Expr.not_isPhrase_sequence _)
  operator := by
    rintro depth operator operands ⟨hphrase, hsymbols, hheight⟩
    rw [Expr.isPhrase_cons] at hphrase
    simp only [Expr.symbols, List.mem_append, not_or] at hsymbols
    simp only [Expr.height] at hheight
    exact ⟨.inr hphrase.1, hsymbols.1, hheight.imp_right (by omega)⟩
  operand := by
    rintro depth operator operands items ⟨hphrase, hsymbols, hheight⟩ hitems e he
    rw [Expr.isPhrase_cons] at hphrase
    simp only [Expr.symbols, List.mem_append, not_or] at hsymbols
    simp only [Expr.height] at hheight
    have hlt := Expr.height_lt_of_items? hitems e he
    refine ⟨.inr (hphrase.2.of_mem_items hitems he), ?_, hheight.imp_right (by omega)⟩
    exact fun hname => hsymbols.2 (Expr.mem_symbols_of_items? hitems he hname)
  closure := fun ⟨_, hsymbols, _⟩ => absurd List.mem_cons_self hsymbols
  assigned _ _ := trivial
  params _ _ _ := trivial
  body := by
    rintro serial scope params body ⟨⟩
  nil := rfl
  integer _ := rfl
  cons_iff := List.append_eq_nil_iff
  applied _ _ := trivial

end Eval

namespace Session

open Eval.Invariant

theorem closureless_globals {mayGiveUp : Prop} :
    ∀ binding ∈ globalBindings,
      (closureless mayGiveUp).Name binding.1 ∧ (closureless mayGiveUp).Value binding.2 := by
  have hvalue : ∀ binding ∈ globalBindings, binding.2.captures = [] := by decide
  exact fun binding hmem => ⟨trivial, hvalue binding hmem⟩

theorem closureless_exprs {message : String} (hfree : Program.LambdaFree message) {mayGiveUp : Prop}
    {depth : Nat} (hdepth : mayGiveUp ∨ Program.height message ≤ depth) :
    ∀ e ∈ Program.exprs message, (closureless mayGiveUp).Code depth e := by
  intro e he
  refine ⟨Program.isPhrase_exprs message e he, hfree.not_mem_symbols e he, ?_⟩
  have hlt := Expr.height_lt_of_items? (Expr.items?_ofList _) e he
  exact hdepth.imp_right hlt.le.trans

theorem Obeys.isSome_reply {session : Session} (h : session.Obeys (closureless False))
    {message : String} (hfree : Program.LambdaFree message) {depth : Nat}
    (hdepth : Program.height message ≤ depth) :
    (session.trigger depth message).reply.isSome := by
  rw [reply_isSome_iff]
  exact (h.run (closureless_exprs hfree (.inr hdepth))).mayGiveUp

theorem Obeys.isSome_replies {session : Session} (h : session.Obeys (closureless False))
    {messages : List String} (hfree : ∀ message ∈ messages, Program.LambdaFree message)
    {depth : Nat} (hdepth : ∀ message ∈ messages, Program.height message ≤ depth) :
    ∀ reply ∈ session.replies depth messages, reply.isSome := by
  induction messages generalizing session with
  | nil => exact List.forall_mem_nil _
  | cons message messages ih =>
    rw [List.forall_mem_cons] at hfree hdepth
    rw [replies_cons, List.forall_mem_cons]
    refine ⟨h.isSome_reply hfree.1 hdepth.1, ih ?_ hfree.2 hdepth.2⟩
    exact h.trigger (closureless_exprs hfree.1 (.inr hdepth.1))

/--
Granted the depth, the message is run to its end and answered with the text, which is the printed
value or the message of the error.
-/
structure Answers (session : Session) (depth : Nat) (message text : String) : Prop where
  reply : (session.trigger depth message).reply = some text
  outcome :
    (∃ value, (Program.run depth message session.scope session.store).outcome = .value value ∧
      text = value.print) ∨
    ∃ e, (Program.run depth message session.scope session.store).outcome = .error e ∧
      text = e.message

section

variable {session : Session} {depth more : Nat} {message text : String} {messages : List String}

theorem trigger_eq_of_le (hle : depth ≤ more) (h : (session.trigger depth message).reply.isSome) :
    session.trigger more message = session.trigger depth message := by
  rw [reply_isSome_iff] at h
  simp only [trigger, Program.run_eq_of_le hle h]

theorem exists_answers (h : (session.trigger depth message).reply.isSome) :
    ∃ text, session.Answers depth message text := by
  rw [reply_isSome_iff] at h
  cases hrun : (Program.run depth message session.scope session.store).outcome with
  | value value => exact ⟨value.print, by simp only [trigger, hrun], .inl ⟨value, hrun, rfl⟩⟩
  | error e => exact ⟨e.message, by simp only [trigger, hrun], .inr ⟨e, hrun, rfl⟩⟩
  | outOfFuel => exact absurd hrun h

theorem Answers.mono (h : session.Answers depth message text) (hle : depth ≤ more) :
    session.Answers more message text := by
  have hsome : (session.trigger depth message).reply.isSome := by
    rw [h.reply]
    rfl
  constructor
  . rw [trigger_eq_of_le hle hsome, h.reply]
  . rw [Program.run_eq_of_le hle ((reply_isSome_iff ..).mp hsome)]
    exact h.outcome

theorem replies_eq_of_le (hle : depth ≤ more)
    (h : ∀ reply ∈ session.replies depth messages, reply.isSome) :
    session.replies more messages = session.replies depth messages := by
  induction messages generalizing session with
  | nil => rfl
  | cons message messages ih =>
    rw [replies_cons, List.forall_mem_cons] at h
    rw [replies_cons, replies_cons, trigger_eq_of_le hle h.1, ih h.2]

theorem exists_texts
    (h : ∀ reply ∈ session.replies depth messages, reply.isSome) :
    ∃ texts : List String, texts.length = messages.length ∧
      ∀ more ≥ depth, session.replies more messages = texts.map some := by
  refine ⟨(session.replies depth messages).map (·.getD ""), by simp, ?_⟩
  intro more hle
  have hgetD : ∀ reply ∈ session.replies depth messages, id reply = some (reply.getD "") := by
    intro reply hmem
    obtain ⟨text, rfl⟩ := Option.isSome_iff_exists.mp (h reply hmem)
    rfl
  rw [replies_eq_of_le hle h, List.map_map]
  exact (List.map_id _).symm.trans (List.map_congr_left hgetD)

end

/--
Messages without `lambda` are all answered, whatever the others among them do: from some depth on
there is one reply to each of them, and it depends on the depth no more. This holds as well for any
of them in any session that they lead to. And whatever depths they are granted, no binding and no
value of such a message ever holds a closure.
-/
theorem lambdaFree_answered {messages : List String}
    (hfree : ∀ message ∈ messages, Program.LambdaFree message) :
    (∃ depth, ∃ texts : List String, texts.length = messages.length ∧
      ∀ more ≥ depth, start.replies more messages = texts.map some) ∧
    ∀ session : Session, session.Reached (· ∈ messages) →
      (∀ message ∈ messages, ∃ depth text, ∀ more ≥ depth, session.Answers more message text) ∧
      (∀ scope name value, session.store.own? scope name = some value → value.captures = []) ∧
      ∀ message ∈ messages, ∀ depth value,
        (Program.run depth message session.scope session.store).outcome = .value value →
          value.captures = [] := by
  constructor
  . refine ⟨(messages.map Program.height).sum, exists_texts ?_⟩
    apply (obeys_start closureless_globals).isSome_replies hfree
    intro message hmem
    exact List.single_le_sum (fun _ _ => Nat.zero_le _) _ (List.mem_map_of_mem hmem)
  . intro session hreached
    have hcode : ∀ message ∈ messages, ∀ depth, ∀ e ∈ Program.exprs message,
        (closureless True).Code depth e :=
      fun message hmem _ => closureless_exprs (hfree message hmem) (.inl trivial)
    have hobeys := hreached.obeys closureless_globals hcode
    refine ⟨?_, ?_, ?_⟩
    . intro message hmem
      -- What the store obeys is the same whether the messages before came to their ends or not.
      have hstore := hobeys.store
      have hstrict : session.Obeys (closureless False) :=
        ⟨hobeys.scope_lt, hstore.closed, hstore.value, hstore.name⟩
      obtain ⟨text, hanswers⟩ :=
        exists_answers (hstrict.isSome_reply (hfree message hmem) (Nat.le_refl _))
      exact ⟨_, text, fun _ => hanswers.mono⟩
    . intro scope name value hvalue
      exact hobeys.store.value hvalue
    . intro message hmem depth value hvalue
      exact ((hobeys.run (hcode message hmem depth)).value value hvalue).value

theorem lambdaFree_answered_shadowed :
    let setting := "(setq car cdr) (setq f '(5 x))"
    let failing := "(setq f g)"
    let calling := "(car f)"
    (∀ message ∈ [setting, failing, calling], Program.LambdaFree message) ∧
      ∃ depth, ∀ more ≥ depth, start.replies more [setting, failing, calling] =
        [some "(5 x)", some (ProgramError.eval (.unbound "g")).message, some "(x)"] := by
  intro setting failing calling
  have hfree : ∀ message ∈ [setting, failing, calling], Program.LambdaFree message := by
    simp only [List.forall_mem_cons, Program.LambdaFree]
    refine ⟨?_, ?_, ?_, List.forall_mem_nil _⟩
    . simp only [show tokenize setting = _ by cbv]
      decide
    . simp only [show tokenize failing = _ by cbv]
      decide
    . simp only [show tokenize calling = _ by cbv]
      decide
  have hreplies : start.replies 3 [setting, failing, calling] =
      [some "(5 x)", some (ProgramError.eval (.unbound "g")).message, some "(x)"] := by
    have hset : (start.trigger 3 setting).reply = some "(5 x)" := by cbv
    have hfailed : ((start.trigger 3 setting).session.trigger 3 failing).reply =
        some (ProgramError.eval (.unbound "g")).message := by
      have hrun : (Program.run 3 failing (start.trigger 3 setting).session.scope
          (start.trigger 3 setting).session.store).outcome = .error (.eval (.unbound "g")) := by
        cbv
      rw [reply_trigger, hrun]
      rfl
    have hcalled : (((start.trigger 3 setting).session.trigger 3 failing).session.trigger 3
        calling).reply = some "(x)" := by
      rw [session_trigger _ 3 failing]
      cbv
    rw [replies_cons, replies_cons, replies_cons, replies_nil, hset, hfailed, hcalled]
  have hsome : ∀ reply ∈ start.replies 3 [setting, failing, calling], reply.isSome := by
    simp [hreplies]
  obtain ⟨depth, texts, _, htexts⟩ := (lambdaFree_answered hfree).1
  refine ⟨hfree, depth, ?_⟩
  intro more hle
  -- The texts are those of any depth that is great enough, and three is.
  rw [htexts more hle, ← htexts _ (Nat.le_max_left depth 3)]
  rw [replies_eq_of_le (Nat.le_max_right depth 3) hsome, hreplies]

end Session

end ChatLisp
