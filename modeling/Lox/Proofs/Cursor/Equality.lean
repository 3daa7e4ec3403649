import Lox.Proofs.Cursor.Position

/-!
# Cursors that are equal stay equal

Equality of cursors leaves the line out, so it is kept by whatever does not look at the line: moves
answer alike (`makeAll_congr`) and slices are alike (`sliceUntil_congr`). Of cursors that came about
by moves and copies the line is told by the position, so equal ones are on one line as well.
-/

namespace Lox.Cursor

variable {source source' : Text} {a b c : Cursor}

lemma beq_iff : (a == b) = true ↔ a.source = b.source ∧ a.rest = b.rest := by
  rw [BEq.beq, instBEq]
  simp only [Bool.and_eq_true, beq_iff_eq]

lemma offset_congr (eq : (a == b) = true) : a.offset = b.offset := by
  obtain ⟨sources, rest⟩ := beq_iff.mp eq
  rw [offset, offset, sources, rest]

lemma isAtEnd_congr (eq : (a == b) = true) : a.isAtEnd = b.isAtEnd := by
  rw [isAtEnd, isAtEnd, (beq_iff.mp eq).2]

lemma sliceUntil_congr (eq : (a == b) = true) (c : Cursor) :
    a.sliceUntil c = b.sliceUntil c ∧ c.sliceUntil a = c.sliceUntil b := by
  obtain ⟨sources, rest⟩ := beq_iff.mp eq
  rw [sliceUntil, sliceUntil, sliceUntil, sliceUntil, sources, rest]
  exact ⟨rfl, rfl⟩

/-- A move answers alike for equal cursors, and they are equal after it. -/
lemma make_congr (eq : (a == b) = true) (move : Move) :
    (a.make move).1 = (b.make move).1 ∧ ((a.make move).2 == (b.make move).2) = true := by
  obtain ⟨sources, rest⟩ := beq_iff.mp eq
  rw [make_eq, make_eq, rest, beq_iff]
  refine ⟨rfl, ?_, ?_⟩
  · rw [source_skip, source_skip, sources]
  · rw [rest_skip, rest_skip, rest]

lemma makeAll_congr (eq : (a == b) = true) (moves : List Move) :
    (a.makeAll moves).1 = (b.makeAll moves).1 ∧
      ((a.makeAll moves).2 == (b.makeAll moves).2) = true := by
  induction moves generalizing a b with
  | nil => exact ⟨rfl, eq⟩
  | cons move moves ih =>
    obtain ⟨answer, eq⟩ := make_congr eq move
    obtain ⟨answers, eq⟩ := ih eq
    exact ⟨congrArg₂ List.cons answer answers, eq⟩

/-- Equal positions are on one line. -/
lemma Reachable.line_congr (reach : Reachable source a) (reach' : Reachable source' b)
    (eq : (a == b) = true) : a.line = b.line := by
  obtain ⟨front, stands⟩ := reach.stands
  obtain ⟨front', stands'⟩ := reach'.stands
  obtain ⟨sources, rest⟩ := beq_iff.mp eq
  rw [stands.same, stands'.same] at sources
  subst sources
  exact stands.line_unique stands' rest

/-- Equality of cursors is a congruence. Equal cursors, over one source or over two that are equal
texts, agree in line, offset and being at the end. The same moves make them answer alike and leave
them equal and on one line, and against any other cursor both give the same slices or the same
faults. -/
theorem agree_of_beq (reach : Reachable source a) (reach' : Reachable source' b)
    (eq : (a == b) = true) :
    a.line = b.line ∧ a.offset = b.offset ∧ a.isAtEnd = b.isAtEnd ∧
    ∀ moves, (a.makeAll moves).1 = (b.makeAll moves).1 ∧
      ((a.makeAll moves).2 == (b.makeAll moves).2) = true ∧
      (a.makeAll moves).2.line = (b.makeAll moves).2.line ∧
      ∀ c, (a.makeAll moves).2.sliceUntil c = (b.makeAll moves).2.sliceUntil c ∧
        c.sliceUntil (a.makeAll moves).2 = c.sliceUntil (b.makeAll moves).2 := by
  refine ⟨reach.line_congr reach' eq, offset_congr eq, isAtEnd_congr eq, fun moves => ?_⟩
  obtain ⟨answers, after⟩ := makeAll_congr eq moves
  exact ⟨answers, after, (reach.makeAll moves).line_congr (reach'.makeAll moves) after,
    sliceUntil_congr after⟩

/-- One cursor has read a line break because it is one, the other because it is no quote. -/
theorem agree_of_beq_lineBreak :
    ∃ a b, Reachable "\n\"".toList a ∧ Reachable "\n\"".toList b ∧ (a == b) = true ∧
      a.line = 2 ∧ b.line = 2 ∧
      (b.makeAll [.peekNext, .eat '"', .next]).1 = [.seen none, .eaten true, .seen none] := by
  have reach : Reachable "\n\"".toList (start "\n\"".toList |>.eat '\n').2 :=
    ⟨[.move 0 (.eat '\n')], .head _⟩
  have reach' : Reachable "\n\"".toList (start "\n\"".toList |>.eatWhile (· ≠ '"')) :=
    ⟨[.move 0 (.eatWhile (· ≠ '"'))], .head _⟩
  have eq : ((start "\n\"".toList |>.eat '\n').2 ==
      (start "\n\"".toList |>.eatWhile (· ≠ '"'))) = true := by decide
  obtain ⟨line, _, _, moves⟩ := agree_of_beq reach reach' eq
  obtain ⟨answers, _⟩ := moves [.peekNext, .eat '"', .next]
  exact ⟨_, _, reach, reach', eq, rfl, line.symm, answers.symm⟩

/-- Cursors that were not moved to where they stand may be equal on different lines. -/
example : ((⟨['a'], ['a'], 1⟩ : Cursor) == ⟨['a'], ['a'], 2⟩) = true := by decide

end Lox.Cursor
