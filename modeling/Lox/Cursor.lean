import Lox.Fault
import Lox.Text
import Lox.Text.Quoted

/-!
# Cursors

A cursor is a position in a source that knows the line it is on. Cursors are values: a position is
kept by keeping the cursor, and the text between two positions is a slice.
-/

namespace Lox

/-- A position in a source. -/
structure Cursor where
  source : Text
  /-- What lies ahead of the position. -/
  rest : Text
  /-- The line of the position, counted from one. -/
  line : Nat

namespace Cursor

def start (source : Text) : Cursor := ⟨source, source, 1⟩

/-- The position in bytes from the start of the source. -/
def offset (c : Cursor) : Nat := c.source.utf8Size - c.rest.utf8Size

def isAtEnd (c : Cursor) : Bool := c.rest.isEmpty

def peek? (c : Cursor) : Option Char := c.rest[0]?

def peekNext? (c : Cursor) : Option Char := c.rest[1]?

/-- Reads one character. Only a line break leads to another line. -/
def next? (c : Cursor) : Option (Char × Cursor) :=
  match c.rest with
  | [] => none
  | x :: rest => some (x, ⟨c.source, rest, if x = '\n' then c.line + 1 else c.line⟩)

/-- Reads `n` characters, or all there are. -/
def skip : Nat → Cursor → Cursor
  | 0, c => c
  | n + 1, c =>
    match c.next? with
    | some (_, c) => skip n c
    | none => c

/-- Reads `n` characters, or all there are, and gives them as a text. -/
def take (n : Nat) (c : Cursor) : Text × Cursor := (c.rest.take n, c.skip n)

/-- Reads the next character if it satisfies `p`, and says whether it did. -/
def eatIf (p : Char → Bool) (c : Cursor) : Bool × Cursor :=
  match c.next? with
  | some (x, after) => if p x then (true, after) else (false, c)
  | none => (false, c)

def eat (x : Char) (c : Cursor) : Bool × Cursor := c.eatIf (· == x)

/-- Reads characters as long as they satisfy `p`, and stops in front of the first that does not. -/
def eatWhile (p : Char → Bool) (c : Cursor) : Cursor := c.skip (c.rest.takeWhile p).length

@[simp] theorem rest_skip (n : Nat) (c : Cursor) : (c.skip n).rest = c.rest.drop n := by
  induction n generalizing c with
  | zero => rfl
  | succ n ih =>
    rcases h : c.rest with _ | ⟨x, t⟩ <;> simp [skip, next?, h, ih]

@[simp] theorem source_skip (n : Nat) (c : Cursor) : (c.skip n).source = c.source := by
  induction n generalizing c with
  | zero => rfl
  | succ n ih =>
    rcases h : c.rest with _ | ⟨x, t⟩ <;> simp [skip, next?, h, ih]

theorem line_skip (n : Nat) (c : Cursor) :
    (c.skip n).line = c.line + Text.newlines (c.rest.take n) := by
  induction n generalizing c with
  | zero => rfl
  | succ n ih =>
    rcases h : c.rest with _ | ⟨x, t⟩
    · rw [skip, next?, h]
      rfl
    · rw [skip, next?, h, List.take_succ_cons, Text.newlines_cons]
      dsimp only
      rw [ih]
      split <;> simp only <;> omega

/-- Cursors are the same position if their sources and what lies ahead are equal texts. -/
instance : BEq Cursor where
  beq a b := a.source == b.source && a.rest == b.rest

/-- The text from one position to a later one in the same source. Its size is what lies ahead of the
first position less what lies ahead of the last. -/
def sliceUntil (first last : Cursor) : Except Fault Text :=
  if first.source != last.source then .error .differentSources
  else if first.rest.utf8Size < last.rest.utf8Size then .error .reversedSlice
  else
    match first.rest.splitAtByte? (first.rest.utf8Size - last.rest.utf8Size) with
    | some (slice, _) => .ok slice
    | none => .error .splitCharacter

/-- The slice over `n` characters is these characters. -/
theorem sliceUntil_skip (n : Nat) (c : Cursor) : c.sliceUntil (c.skip n) = .ok (c.rest.take n) := by
  have size : c.rest.utf8Size = Text.utf8Size (c.rest.take n) + Text.utf8Size (c.rest.drop n) := by
    rw [← Text.utf8Size_append, List.take_append_drop]
  have cut := Text.splitAtByte?_append (c.rest.take n) (c.rest.drop n)
  rw [List.take_append_drop] at cut
  simp only [sliceUntil, source_skip, rest_skip, bne_self_eq_false, Bool.false_eq_true, if_false]
  rw [if_neg (by omega), size, Nat.add_sub_cancel, cut]

def describe (c : Cursor) : Text :=
  "Cursor \x7b line: Line(".toList ++ Text.ofNat c.line ++ "), offset: ".toList ++
    Text.ofNat c.offset ++ " \x7d".toList

/-- A description of a position and of what lies ahead, an item a line. -/
def describeFully (c : Cursor) : Text :=
  "Cursor \x7b\n    line: Line(\n        ".toList ++ Text.ofNat c.line ++
    ",\n    ),\n    offset: ".toList ++ Text.ofNat c.offset ++
    ",\n    rest: ".toList ++ c.rest.quote ++ ",\n\x7d".toList

end Cursor

end Lox
