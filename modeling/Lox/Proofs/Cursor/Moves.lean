import Lox.Cursor.Moves
import Mathlib.Data.List.Infix

/-!
# What a move does

Each move answers by what lies ahead, and it skips the characters that it reads (`make_eq`). So do
moves one after the other: they come to the position behind all that they read (`makeAll_skip`),
which is a front part of what was ahead of the first (`isPrefix_frontOfAll`).
-/

namespace Lox.Cursor

variable {c : Cursor} {x : Char} {t : Text} {p : Char → Bool} {move : Move} {moves : List Move}

lemma skip_skip (m n : Nat) (c : Cursor) : (c.skip m).skip n = c.skip (m + n) := by
  induction m generalizing c with
  | zero => rw [skip, Nat.zero_add]
  | succ m ih =>
    rw [Nat.succ_add, skip, skip]
    cases ahead : c.next? with
    | none =>
      cases n with
      | zero => rfl
      | succ n => rw [skip, ahead]
    | some next => exact ih next.2

lemma next?_of_cons (h : c.rest = x :: t) : c.next? = some (x, c.skip 1) := by
  simp only [skip, next?, h]

lemma next?_of_nil (h : c.rest = []) : c.next? = none := by
  rw [next?, h]

lemma eatIf_eq (p : Char → Bool) (c : Cursor) :
    c.eatIf p = (c.rest[0]?.any p, c.skip ((c.rest.take 1).takeWhile p).length) := by
  rw [eatIf]
  cases ahead : c.rest with
  | nil =>
    rw [next?_of_nil ahead]
    rfl
  | cons x t =>
    rw [next?_of_cons ahead]
    cases yes : p x with
    | true => simp [yes]
    | false => simp [yes, skip]

lemma eat_of_pos (h : c.rest = x :: t) : c.eat x = (true, c.skip 1) := by
  rw [eat, eatIf_eq, h]
  simp

lemma eat_of_neg (h : c.rest.head? ≠ some x) : c.eat x = (false, c) := by
  rw [eat, eatIf_eq]
  cases ahead : c.rest with
  | nil => rfl
  | cons y t =>
    have ne : y ≠ x := fun eq => h (by rw [ahead, eq, List.head?_cons])
    simp [ne, skip]

lemma rest_eatWhile (p : Char → Bool) (c : Cursor) :
    (c.eatWhile p).rest = c.rest.dropWhile p := by
  rw [eatWhile, rest_skip]
  have drop : (c.rest.takeWhile p ++ c.rest.dropWhile p).drop (c.rest.takeWhile p).length =
      c.rest.dropWhile p := List.drop_left
  rwa [List.takeWhile_append_dropWhile] at drop

/-- Reading while `p` holds is reading one character if `p` holds of it, as often as one is read. -/
theorem eatWhile_eq (p : Char → Bool) (c : Cursor) :
    c.eatWhile p = if (c.eatIf p).1 then (c.eatIf p).2.eatWhile p else c := by
  rw [eatIf_eq, eatWhile, eatWhile, rest_skip, skip_skip]
  cases ahead : c.rest with
  | nil => rfl
  | cons x t =>
    cases yes : p x with
    | true => simp [yes, Nat.add_comm]
    | false => simp [yes, skip]

/-- A move answers by what lies ahead and skips what it reads. -/
theorem make_eq (c : Cursor) (move : Move) :
    c.make move = (move.answer c.rest, c.skip (move.front c.rest).length) := by
  cases move with
  | next =>
    rw [make]
    cases ahead : c.rest with
    | nil =>
      rw [next?_of_nil ahead]
      rfl
    | cons x t =>
      rw [next?_of_cons ahead]
      rfl
  | peek => rfl
  | peekNext => rfl
  | eat x => rw [make, eat, eatIf_eq, Move.answer, Move.front]
  | eatIf p => rw [make, eatIf_eq, Move.answer, Move.front]
  | eatWhile p => rfl

/-- A move reads from the front. -/
lemma isPrefix_front (t : Text) (move : Move) : move.front t <+: t := by
  cases move with
  | next => exact List.take_prefix 1 t
  | peek => exact List.nil_prefix
  | peekNext => exact List.nil_prefix
  | eat x => exact (List.takeWhile_prefix _).trans (List.take_prefix 1 t)
  | eatIf p => exact (List.takeWhile_prefix p).trans (List.take_prefix 1 t)
  | eatWhile p => exact List.takeWhile_prefix p

lemma isPrefix_frontOfAll (moves : List Move) (t : Text) : frontOfAll moves t <+: t := by
  induction moves generalizing t with
  | nil => exact List.nil_prefix
  | cons move moves ih =>
    obtain ⟨rest, split⟩ := isPrefix_front t move
    have drop : (move.front t ++ rest).drop (move.front t).length = rest := List.drop_left
    obtain ⟨rest', split'⟩ := ih rest
    rw [split] at drop
    rw [frontOfAll, drop]
    exact ⟨rest', by rw [List.append_assoc, split', split]⟩

lemma makeAll_skip (moves : List Move) (c : Cursor) :
    (c.makeAll moves).2 = c.skip (frontOfAll moves c.rest).length := by
  induction moves generalizing c with
  | nil => rfl
  | cons move moves ih =>
    rw [makeAll, make_eq, frontOfAll, List.length_append, ← skip_skip, ← rest_skip]
    exact ih _

end Lox.Cursor
