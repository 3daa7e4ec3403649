/-!
# Text

Sources, lexemes and everything that is written out are lists of characters. Positions in a text
count the bytes of its UTF-8 encoding, so that a position may lie inside a character.
-/

namespace Lox

/-- A text, character by character. -/
abbrev Text := List Char

namespace Text

/-- The number of bytes of the UTF-8 encoding. -/
def utf8Size (t : Text) : Nat := t.foldl (fun size c => size + c.utf8Size) 0

/-- The text with this UTF-8 encoding. -/
def ofBytes? (bytes : List UInt8) : Option Text :=
  (String.fromUTF8? ⟨bytes.toArray⟩).map String.toList

def newlines (t : Text) : Nat := t.count '\n'

def ofNat (n : Nat) : Text := Nat.toDigits 10 n

/-- An integer in decimal digits, with a sign only where it is negative. -/
def ofInt : Int → Text
  | .ofNat n => ofNat n
  | .negSucc n => '-' :: ofNat (n + 1)

/-- The text without the characters `c` at its end. -/
def dropTrailing (c : Char) (t : Text) : Text := (t.reverse.dropWhile (· = c)).reverse

/-- Cuts a text after `n` bytes, where that position lies in the text and between two characters. -/
def splitAtByte? (n : Nat) : Text → Option (Text × Text)
  | [] => if n = 0 then some ([], []) else none
  | c :: t =>
    if n = 0 then some ([], c :: t)
    else if n < c.utf8Size then none
    else (splitAtByte? (n - c.utf8Size) t).map fun (front, rest) => (c :: front, rest)

/-- The text from byte `first` up to byte `last`, where these are in order and cut no character. -/
def slice? (first last : Nat) (t : Text) : Option Text :=
  if first ≤ last then do
    let (_, rest) ← t.splitAtByte? first
    let (slice, _) ← rest.splitAtByte? (last - first)
    return slice
  else none

/-- Byte `n` is in front of a character or at the end. -/
def IsBoundary (t : Text) (n : Nat) : Prop := ∃ front rest, t = front ++ rest ∧ front.utf8Size = n

theorem newlines_cons (c : Char) (t : Text) :
    newlines (c :: t) = (if c = '\n' then 1 else 0) + newlines t := by
  rw [newlines, List.count_cons, Nat.add_comm, ← newlines]
  simp only [beq_iff_eq]

theorem newlines_append (t u : Text) : newlines (t ++ u) = newlines t + newlines u :=
  List.count_append

@[simp] theorem utf8Size_nil : utf8Size [] = 0 := rfl

private theorem foldl_utf8Size (t : Text) (n : Nat) :
    t.foldl (fun size c => size + c.utf8Size) n = n + utf8Size t := by
  induction t generalizing n with
  | nil => rfl
  | cons c t ih =>
    have size : utf8Size (c :: t) = 0 + c.utf8Size + utf8Size t := ih _
    rw [List.foldl_cons, ih, size]
    omega

@[simp] theorem utf8Size_cons (c : Char) (t : Text) :
    utf8Size (c :: t) = c.utf8Size + utf8Size t := by
  rw [utf8Size, List.foldl_cons, foldl_utf8Size, Nat.zero_add]

@[simp] theorem utf8Size_append (t u : Text) : utf8Size (t ++ u) = utf8Size t + utf8Size u := by
  rw [utf8Size, List.foldl_append, foldl_utf8Size, ← utf8Size]

/-- The end of a front part is always a place to cut. -/
theorem splitAtByte?_append (t u : Text) : splitAtByte? (utf8Size t) (t ++ u) = some (t, u) := by
  induction t with
  | nil => cases u <;> simp [splitAtByte?]
  | cons c t ih =>
    have pos : 0 < c.utf8Size := c.utf8Size_pos
    simp only [List.cons_append, splitAtByte?, utf8Size_cons]
    rw [if_neg (by omega), if_neg (by omega), Nat.add_sub_cancel_left, ih]
    rfl

theorem slice?_append (t u v : Text) :
    slice? (utf8Size t) (utf8Size (t ++ u)) (t ++ u ++ v) = some u := by
  rw [slice?, if_pos (by rw [utf8Size_append]; omega), List.append_assoc, splitAtByte?_append,
    utf8Size_append, Nat.add_sub_cancel_left]
  simp only [Option.bind_eq_bind, Option.bind_some, splitAtByte?_append]
  rfl

end Text

end Lox
