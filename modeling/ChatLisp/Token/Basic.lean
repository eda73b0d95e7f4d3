import ChatLisp.Source.Span

/-!
This module contains the tokens that a text is cut into before it is read as expressions.
-/

namespace ChatLisp

inductive TokenKind where
  | leftParen
  | rightParen
  | dot
  | quote
  | symbol (name : String)
  | integer (value : Int64)
  /-- A complete string literal, with the payload its inside stands for. -/
  | string (payload : String)
  /-- Text that is no token of another kind. It is refused wherever an expression may stand. -/
  | invalid (text : String)
deriving DecidableEq, Inhabited

namespace TokenKind

def name : TokenKind → String
  | leftParen => "left parenthesis"
  | rightParen => "right parenthesis"
  | dot => "dot"
  | quote => "quote"
  | symbol _ => "symbol"
  | integer _ => "integer"
  | string _ => "string"
  | invalid _ => "invalid"

/--
The form in which error messages show a token. A string shows its payload, not its escapes.
-/
def text : TokenKind → String
  | leftParen => "("
  | rightParen => ")"
  | dot => "."
  | quote => "'"
  | symbol name => name
  | integer value => toString value.toInt
  | string payload => "\"" ++ payload ++ "\""
  | invalid text => text

end TokenKind

structure Token where
  kind : TokenKind
  span : Span
deriving DecidableEq, Inhabited

end ChatLisp
