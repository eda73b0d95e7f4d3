/-!
This module contains the arithmetic of byte offsets: how many bytes a run of characters takes in
UTF-8, and how to cut it at an offset.
-/

namespace ChatLisp

def byteLength : List Char → Nat
  | [] => 0
  | c :: cs => c.utf8Size + byteLength cs

@[simp]
theorem byteLength_nil : byteLength [] = 0 :=
  rfl

@[simp]
theorem byteLength_cons (c : Char) (cs : List Char) :
    byteLength (c :: cs) = c.utf8Size + byteLength cs :=
  rfl

@[simp]
theorem byteLength_append (as bs : List Char) :
    byteLength (as ++ bs) = byteLength as + byteLength bs := by
  induction as with
  | nil => simp
  | cons c as ih => simp [ih, Nat.add_assoc]

theorem byteLength_eq_zero_iff {cs : List Char} : byteLength cs = 0 ↔ cs = [] := by
  cases cs with
  | nil => simp
  | cons c cs =>
    have := c.utf8Size_pos
    simp
    omega

/--
The characters of `cs` that lie wholly before the byte offset `offset`.
-/
def takeBytes (offset : Nat) : List Char → List Char
  | [] => []
  | c :: cs => if c.utf8Size ≤ offset then c :: takeBytes (offset - c.utf8Size) cs else []

@[simp]
theorem takeBytes_byteLength_append (as bs : List Char) :
    takeBytes (byteLength as) (as ++ bs) = as := by
  induction as with
  | nil =>
    cases bs with
    | nil => rfl
    | cons c bs =>
      have := c.utf8Size_pos
      simp [takeBytes]
      omega
  | cons c as ih => simp [takeBytes, ih]

theorem front_eq_of_byteLength_eq {front back front' back' : List Char}
    (happend : front ++ back = front' ++ back') (hlength : byteLength front = byteLength front') :
    front = front' := by
  rw [← takeBytes_byteLength_append front back, happend, hlength, takeBytes_byteLength_append]

end ChatLisp
