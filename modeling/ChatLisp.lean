import ChatLisp.Bracket.Highlight
import ChatLisp.Completion
import ChatLisp.Expr.Dump
import ChatLisp.Expr.Equality
import ChatLisp.Main
import ChatLisp.Session
import ChatLisp.Terminal
import ChatLisp.Proofs.Parser.Language
import ChatLisp.Proofs.Scope.Isolation
import ChatLisp.Proofs.Token.Lexing
import ChatLisp.Proofs.Expr.Readable
import ChatLisp.Proofs.Parser.RoundTrip
import ChatLisp.Proofs.Scope.Assignment
import ChatLisp.Proofs.Expr.Survival
import ChatLisp.Proofs.Session.Guests
import ChatLisp.Proofs.Session.Interleaving
import ChatLisp.Proofs.Eval.CallPaths
import ChatLisp.Proofs.Scope.History
import ChatLisp.Proofs.Session.Natives
import ChatLisp.Proofs.Session.Termination
import ChatLisp.Proofs.Eval.Renaming
import ChatLisp.Proofs.Eval.Malformed
import ChatLisp.Proofs.Eval.Subtraction
import ChatLisp.Proofs.Parser.Progress
import ChatLisp.Proofs.Token.Pattern
import ChatLisp.Proofs.Bracket.Balance
import ChatLisp.Proofs.Token.Munch
import ChatLisp.Proofs.Program.Joining
import ChatLisp.Proofs.Bracket.Count
import ChatLisp.Proofs.Program.Refusal
import ChatLisp.Proofs.Source.Spans
import ChatLisp.Proofs.Source.Reports
import ChatLisp.Proofs.Source.LastToken
import ChatLisp.Proofs.Expr.Rereading
import ChatLisp.Proofs.Expr.Verbatim
import ChatLisp.Proofs.Session.Pasting
import ChatLisp.Proofs.Parser.Shifting
import ChatLisp.Proofs.Scope.Visibility
import ChatLisp.Proofs.Session.Completion
import ChatLisp.Proofs.Bracket.Highlight
import ChatLisp.Proofs.Token.Overflow
import ChatLisp.Proofs.Expr.Sameness
import ChatLisp.Proofs.Expr.Chain
