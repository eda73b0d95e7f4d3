import ChatLisp.Text.Visible

/-!
This module contains the quoted form in which log records show a text: on one line, between quotes,
with escapes for all that has no visible form.
-/

namespace ChatLisp.Quoted

def hexDigits (c : Char) : List Char :=
  Nat.toDigits 16 c.toNat

def showChar (c : Char) : List Char :=
  if c = '"' || c = '\\' then ['\\', c]
  else if c = '\n' then ['\\', 'n']
  else if c = '\r' then ['\\', 'r']
  else if c = '\t' then ['\\', 't']
  else if c = '\x00' then ['\\', '0']
  else if Visible.isVisible c then [c]
  else "\\u\x7b".toList ++ hexDigits c ++ ['\x7d']

def quote (text : String) : String :=
  String.ofList ('"' :: (text.toList.flatMap showChar ++ ['"']))

end ChatLisp.Quoted
