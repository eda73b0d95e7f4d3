import ChatLisp.Program
import ChatLisp.Source.Place

/-!
This module contains the reports that show an error to the author of a text: a headline, and a label
that is attached to a place in the text.
-/

namespace ChatLisp

structure Label where
  place : Place
  text : String
deriving DecidableEq, Inhabited

structure Report where
  headline : String
  label : Option Label
deriving DecidableEq, Inhabited

namespace Report

/--
Whether a label on `span` can be drawn into a text of `length` characters. The offsets of a span are
taken as numbers of characters.
-/
def canLabel (length : Nat) (span : Span) : Bool :=
  span.start ≤ length && (span.start == span.stop || span.stop - 1 ≤ length)

/--
A report with a label on a span. A label that cannot be drawn is left out.
-/
def onSpan (source : String) (headline : String) (span : Span) (remark : String) : Report :=
  let text := source.toList
  ⟨headline,
    if canLabel text.length span then some ⟨Place.ofOffset text span.start, remark⟩ else none⟩

def wholeSpan (source : String) : Span :=
  ⟨0, source.utf8ByteSize⟩

def endSpan (source : String) : Span :=
  ⟨source.utf8ByteSize, source.utf8ByteSize⟩

def ofTokenError (source : String) (error : IntegerOverflow) : Report :=
  onSpan source "Tokenize Error" error.span error.message

def ofParseError (source : String) : ParseError → Report
  | .unexpectedToken found =>
    onSpan source ("Unexpected " ++ found.kind.name ++ ": " ++ found.kind.text) found.span
      ("Expected " ++ Expectation.expression.text)
  | .unexpectedEnd expected =>
    onSpan source "Unexpected end of input" (endSpan source) ("Expected " ++ expected.text)
  | .invalidDot span =>
    onSpan source "Malformed dotted list" span
      "A dot must be followed by exactly one expression and ')'"
  | .emptyQuote span =>
    onSpan source "Quoted empty expression" span "Nothing follows this quote"
  | .emptyInput => ⟨"No expression to evaluate", none⟩

def evalRemark : EvalError → String
  | .unbound _ => "This symbol is not defined in the current scope"
  | .notAProcedure _ => "This expression cannot be called as a function"
  | .wrongArity _ _ _ => "Argument count does not match"
  | .typeMismatch _ _ _ => "Argument has the wrong type"
  | .notASymbol _ => "Only symbols can be bound"
  | .invalidSpecialForm _ => "This special form is malformed or incomplete"
  | .improperArguments _ => "Invalid arguments"
  | .integerOverflow _ _ => "Invalid arguments"

/--
The report on an error of the evaluator. Values do not know where they were written, so the label is
on the whole text.
-/
def ofEvalError (source : String) (error : EvalError) : Report :=
  onSpan source error.message (wholeSpan source) (evalRemark error)

end Report

def ProgramError.report (source : String) : ProgramError → Report
  | token error => Report.ofTokenError source error
  | parse error => Report.ofParseError source error
  | eval error => Report.ofEvalError source error

end ChatLisp
