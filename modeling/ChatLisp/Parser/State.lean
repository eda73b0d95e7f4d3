import ChatLisp.Expr.List
import ChatLisp.Parser.Error

/-!
This module contains the states that the parser goes through while it reads one expression. A state
holds what is still open, innermost first, so a step looks at one token and at the innermost open
construct only.
-/

namespace ChatLisp.Parser

/--
A construct of which only a front part has been read.
-/
inductive Pending where
  | list (items : List Expr)
  /-- A list up to and including its dot. -/
  | tail (items : List Expr) (dot : Span)
  /-- A run of `extra + 1` quotes, with the spans of its first and its last quote. -/
  | quotes (extra : Nat) (first last : Span)

inductive State where
  /-- An expression is to be read, or the innermost list may end. -/
  | reading (pending : List Pending)
  /-- The tail of the innermost list has been read, and the list must end. -/
  | closing (items : List Expr) (tail : Expr) (dot : Span) (pending : List Pending)

inductive Step where
  | more (state : State)
  | done (expr : Expr)
  | fail (error : ParseError)

def quoteTimes : Nat → Expr → Expr
  | 0, e => e
  | count + 1, e => quoteTimes count (.quoted e)

/--
Hand a complete expression to the innermost open construct.
-/
def complete (e : Expr) : List Pending → Step
  | [] => .done e
  | .list items :: pending => .more (.reading (.list (e :: items) :: pending))
  | .tail items dot :: pending => .more (.closing items e dot pending)
  | .quotes extra _ _ :: pending => complete (quoteTimes (extra + 1) e) pending

/--
A dot ends the items of the innermost list. Outside of lists it is an expression.
-/
def readDot (span : Span) (pending : List Pending) : Step :=
  match pending with
  | .list [] :: _ => .fail (.invalidDot span)
  | .list items :: pending => .more (.reading (.tail items span :: pending))
  | .tail _ dot :: _ => .fail (.invalidDot (dot.merge span))
  | _ => complete .dot pending

def readRightParen (span : Span) (pending : List Pending) : Step :=
  match pending with
  | .list items :: pending => complete (.ofList items.reverse) pending
  | .tail _ dot :: _ => .fail (.invalidDot (dot.merge span))
  | _ => .fail (.unexpectedToken ⟨.rightParen, span⟩)

def readQuote (span : Span) (pending : List Pending) : Step :=
  match pending with
  | .quotes extra first _ :: pending =>
    .more (.reading (.quotes (extra + 1) first span :: pending))
  | _ => .more (.reading (.quotes 0 span span :: pending))

def State.step (state : State) (token : Token) : Step :=
  match state with
  | reading pending =>
    match token.kind with
    | .leftParen => .more (.reading (.list [] :: pending))
    | .rightParen => readRightParen token.span pending
    | .dot => readDot token.span pending
    | .quote => readQuote token.span pending
    | .symbol name => complete (.symbol name) pending
    | .integer value => complete (.integer value) pending
    | .string payload => complete (.string payload) pending
    | .invalid _ => .fail (.unexpectedToken token)
  | closing items tail dot pending =>
    match token.kind with
    | .rightParen => complete (.ofListWithTail items.reverse tail) pending
    | _ => .fail (.invalidDot (dot.merge token.span))

def State.endError : State → ParseError
  | reading [] => .unexpectedEnd .expression
  | reading (.list _ :: _) => .unexpectedEnd .rightParen
  | reading (.tail _ _ :: _) => .unexpectedEnd .tail
  | reading (.quotes _ first last :: _) => .emptyQuote (first.merge last)
  | closing _ _ _ _ => .unexpectedEnd .rightParenAfterTail

end ChatLisp.Parser
