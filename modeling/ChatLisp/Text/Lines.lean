/-!
This module contains the division of a text into lines, for any rule that says where lines end.
-/

namespace ChatLisp

/--
The pieces of a text that end behind each character `c` with `ends c rest`, where `rest` is the text
behind `c`. There is no empty piece at the end.
-/
def splitAfter (ends : Char → List Char → Bool) : List Char → List (List Char)
  | [] => []
  | c :: rest =>
    if ends c rest then
      [c] :: splitAfter ends rest
    else
      match splitAfter ends rest with
      | [] => [[c]]
      | piece :: pieces => (c :: piece) :: pieces

end ChatLisp
