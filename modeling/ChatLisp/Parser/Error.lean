import ChatLisp.Token.Lexer

/-!
This module contains the ways in which reading a text as expressions can fail, and their messages.
-/

namespace ChatLisp

inductive Expectation where
  | expression
  | rightParen
  | tail
  | rightParenAfterTail
deriving DecidableEq, Inhabited

def Expectation.text : Expectation → String
  | expression => "an expression"
  | rightParen => "')'"
  | tail => "an expression after '.'"
  | rightParenAfterTail => "')' after dotted pair"

inductive ParseError where
  /-- A token that begins no expression stands where one must begin. -/
  | unexpectedToken (found : Token)
  | unexpectedEnd (expected : Expectation)
  /-- A dot without an item before it, or without exactly one expression behind it. -/
  | invalidDot (span : Span)
  /-- Nothing at all follows a run of quotes. -/
  | emptyQuote (span : Span)
  | emptyInput
deriving DecidableEq, Inhabited

def ParseError.message : ParseError → String
  | unexpectedToken found =>
    "unexpected " ++ found.kind.name ++ " '" ++ found.kind.text ++ "' at [" ++ found.span.text
      ++ "], expected " ++ Expectation.expression.text
  | unexpectedEnd expected => "unexpected end of input, expected " ++ expected.text
  | invalidDot span => "malformed dotted list at [" ++ span.text ++ "]"
  | emptyQuote span => "quoted empty expression at [" ++ span.text ++ "]"
  | emptyInput => "no expression to evaluate"

inductive SyntaxError where
  | token (error : IntegerOverflow)
  | parse (error : ParseError)
deriving DecidableEq, Inhabited

def SyntaxError.message : SyntaxError → String
  | token error => error.message
  | parse error => error.message

end ChatLisp
