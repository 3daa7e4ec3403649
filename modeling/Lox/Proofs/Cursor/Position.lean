import Lox.Proofs.Cursor.Moves

/-!
# Positions and slices

However the cursors over a source came about, each stands behind a front part of it, and offset and
line are told by this part (`Reachable.stands`). So one step moves a cursor on by what it reads
(`Stands.make`), and slices are what lies between two positions: they are joined where one ends and
the other begins, and no end of a slice is inside a character (`slices_of_reachable`).
-/

namespace Lox

lemma Text.eq_nil_of_utf8Size_le {t : Text} (le : t.utf8Size ≤ 0) : t = [] := by
  cases t with
  | nil => rfl
  | cons c t =>
    have pos : 0 < c.utf8Size := c.utf8Size_pos
    rw [utf8Size_cons] at le
    omega

namespace Cursor

variable {source source' front front' t u : Text} {a b c : Cursor} {move : Move}
  {held : List Cursor} {step : Step}

/-- The offset of a position is the size of what is in front of it. -/
lemma offset_of_append (split : c.source = front ++ c.rest) : c.offset = front.utf8Size := by
  rw [offset, split, Text.utf8Size_append, Nat.add_sub_cancel]

lemma stands_start (source : Text) : (start source).Stands source [] :=
  ⟨rfl, rfl, rfl⟩

namespace Stands

lemma offset (stands : c.Stands source front) : c.offset = front.utf8Size :=
  offset_of_append (stands.same.trans stands.split)

/-- A cursor that reads on stands behind what it has read as well. -/
lemma skip (stands : c.Stands source front) (n : Nat) :
    (c.skip n).Stands source (front ++ c.rest.take n) where
  same := (source_skip n c).trans stands.same
  split := by rw [rest_skip, List.append_assoc, List.take_append_drop, ← stands.split]
  line := by rw [line_skip, stands.line, Text.newlines_append, Nat.add_assoc]

lemma make (stands : c.Stands source front) (move : Move) :
    (c.make move).2.Stands source (front ++ move.front c.rest) := by
  have read := List.prefix_iff_eq_take.mp (isPrefix_front c.rest move)
  rw [make_eq]
  conv => arg 2; rw [read]
  exact stands.skip _

/-- The position alone tells the line. -/
lemma line_unique (stands : a.Stands source front) (stands' : b.Stands source front')
    (same : a.rest = b.rest) : a.line = b.line := by
  have eq : front ++ a.rest = front' ++ b.rest := stands.split.symm.trans stands'.split
  rw [same] at eq
  rw [stands.line, stands'.line, List.append_cancel_right eq]

/-- Of two positions the one with the larger offset is behind the other. -/
lemma exists_append (stands : a.Stands source front) (stands' : b.Stands source front')
    (le : a.offset ≤ b.offset) : ∃ t, front' = front ++ t := by
  have fits : front <+: source := ⟨_, stands.split.symm⟩
  have fits' : front' <+: source := ⟨_, stands'.split.symm⟩
  obtain ⟨t, eq⟩ | ⟨t, eq⟩ := List.prefix_or_prefix_of_prefix fits fits'
  · exact ⟨t, eq.symm⟩
  · rw [stands.offset, stands'.offset, ← eq, Text.utf8Size_append] at le
    rw [Text.eq_nil_of_utf8Size_le (t := t) (by omega), List.append_nil] at eq
    exact ⟨[], by rw [eq, List.append_nil]⟩

/-- A slice is what lies between the two positions, and it is the slice of the source by their
offsets. -/
lemma sliceUntil (stands : a.Stands source front) (stands' : b.Stands source (front ++ t)) :
    a.sliceUntil b = .ok t ∧ source.slice? a.offset b.offset = some t := by
  have ahead : a.rest = t ++ b.rest := by
    have eq := stands.split.symm.trans stands'.split
    rw [List.append_assoc] at eq
    exact List.append_cancel_left eq
  constructor
  · have sources : a.source = b.source := stands.same.trans stands'.same.symm
    simp only [Cursor.sliceUntil, sources, bne_self_eq_false, Bool.false_eq_true, if_false, ahead,
      Text.utf8Size_append, Nat.add_sub_cancel, Text.splitAtByte?_append]
    exact if_neg (Nat.not_lt_of_le (Nat.le_add_left _ _))
  · rw [stands.offset, stands'.offset]
    conv => arg 1; arg 3; rw [stands'.split]
    exact Text.slice?_append front t b.rest

end Stands

lemma sliceUntil_of_ne (ne : a.source ≠ b.source) :
    a.sliceUntil b = .error .differentSources := by
  rw [sliceUntil, if_pos (bne_iff_ne.mpr ne)]

lemma sliceUntil_of_lt (stands : a.Stands source front) (stands' : b.Stands source front')
    (lt : b.offset < a.offset) : a.sliceUntil b = .error .reversedSlice := by
  have sources : a.source = b.source := stands.same.trans stands'.same.symm
  have size := congrArg Text.utf8Size (stands.split.symm.trans stands'.split)
  rw [stands.offset, stands'.offset] at lt
  rw [Text.utf8Size_append, Text.utf8Size_append] at size
  simp only [sliceUntil, sources, bne_self_eq_false, Bool.false_eq_true, if_false]
  exact if_pos (by omega)

/-- What is held after a step was held before, or comes by a move from what was. -/
lemma mem_perform (mem : c ∈ perform held step) :
    c ∈ held ∨ ∃ b ∈ held, ∃ move, c = (b.make move).2 := by
  cases step with
  | move i move =>
    obtain ⟨j, at'⟩ := List.mem_iff_getElem?.mp mem
    rw [perform, List.getElem?_modify] at at'
    obtain ⟨b, found, eq⟩ := Option.map_eq_some_iff.mp at'
    have was : b ∈ held := List.mem_of_getElem? found
    split at eq
    case isTrue => exact .inr ⟨b, was, move, eq.symm⟩
    case isFalse => exact .inl (eq ▸ was)
  | copy i =>
    obtain mem | mem := List.mem_append.mp mem
    · exact .inl mem
    · exact .inl (List.mem_of_getElem? (Option.mem_toList.mp mem))

/-- Whatever the steps, a cursor that is held stands in the source. -/
lemma Reachable.stands (reach : Reachable source c) : ∃ front, c.Stands source front := by
  obtain ⟨steps, mem⟩ := reach
  induction steps using List.reverseRecOn generalizing c with
  | nil =>
    rw [List.foldl_nil, List.mem_singleton] at mem
    exact ⟨[], mem ▸ stands_start source⟩
  | append_singleton steps step ih =>
    rw [List.foldl_concat] at mem
    obtain was | ⟨b, was, move, rfl⟩ := mem_perform mem
    · exact ih was
    · obtain ⟨front, stands⟩ := ih was
      exact ⟨_, stands.make move⟩

/-- A cursor that is held can be moved. -/
lemma Reachable.make (reach : Reachable source c) (move : Move) :
    Reachable source (c.make move).2 := by
  obtain ⟨steps, mem⟩ := reach
  obtain ⟨i, found⟩ := List.mem_iff_getElem?.mp mem
  refine ⟨steps ++ [.move i move], List.mem_of_getElem? (i := i) ?_⟩
  rw [List.foldl_concat, perform, List.getElem?_modify, found]
  exact congrArg some (if_pos rfl)

lemma Reachable.makeAll (reach : Reachable source c) (moves : List Move) :
    Reachable source (c.makeAll moves).2 := by
  induction moves generalizing c with
  | nil => exact reach
  | cons move moves ih => exact ih (reach.make move)

/-- Positions and slices. However the cursors over two sources came about by moves and copies, each
stands behind a front part of its source, of which the offset is the size and the line counts the
breaks. A slice is refused exactly where the sources differ or the end comes before the beginning;
any other is the text between the two positions, and a slice that begins where it ends goes on with
it. The slice over some moves is what these moves read. -/
theorem slices_of_reachable (reach : Reachable source a) (reach' : Reachable source' b) :
    (∃ front, a.source = source ∧ source = front ++ a.rest ∧ a.offset = front.utf8Size ∧
      a.line = 1 + front.newlines) ∧
    (source ≠ source' → a.sliceUntil b = .error .differentSources) ∧
    (source = source' → b.offset < a.offset → a.sliceUntil b = .error .reversedSlice) ∧
    (source = source' → a.offset ≤ b.offset →
      ∃ front t, source = front ++ t ++ b.rest ∧
        a.offset = front.utf8Size ∧ b.offset = (front ++ t).utf8Size ∧
        a.sliceUntil b = .ok t ∧ source.slice? a.offset b.offset = some t ∧
        ∀ c, Reachable source c → b.offset ≤ c.offset →
          ∃ u, b.sliceUntil c = .ok u ∧ a.sliceUntil c = .ok (t ++ u)) ∧
    ∀ moves, Reachable source (a.makeAll moves).2 ∧
      a.rest = frontOfAll moves a.rest ++ (a.makeAll moves).2.rest ∧
      a.sliceUntil (a.makeAll moves).2 = .ok (frontOfAll moves a.rest) := by
  obtain ⟨front, stands⟩ := reach.stands
  obtain ⟨front', stands'⟩ := reach'.stands
  refine ⟨⟨front, stands.same, stands.split, stands.offset, stands.line⟩, ?_, ?_, ?_, ?_⟩
  · intro ne
    exact sliceUntil_of_ne (stands.same ▸ stands'.same ▸ ne)
  · rintro rfl lt
    exact sliceUntil_of_lt stands stands' lt
  · rintro rfl le
    obtain ⟨t, rfl⟩ := stands.exists_append stands' le
    obtain ⟨slice, between⟩ := stands.sliceUntil stands'
    refine ⟨front, t, stands'.split, stands.offset, stands'.offset, slice, between, ?_⟩
    intro c reach'' le'
    obtain ⟨front'', stands''⟩ := reach''.stands
    obtain ⟨u, rfl⟩ := stands'.exists_append stands'' le'
    refine ⟨u, (stands'.sliceUntil stands'').1, ?_⟩
    rw [List.append_assoc] at stands''
    exact (stands.sliceUntil stands'').1
  · intro moves
    have read := List.prefix_iff_eq_take.mp (isPrefix_frontOfAll moves a.rest)
    refine ⟨reach.makeAll moves, ?_, ?_⟩
    · rw [makeAll_skip, rest_skip]
      conv => rhs; arg 1; rw [read]
      exact (List.take_append_drop _ _).symm
    · rw [makeAll_skip, sliceUntil_skip, ← read]

/-- A copy of the first cursor reads a character of two bytes and a line break. The first cursor
stays where it is. -/
theorem slices_of_reachable_accent :
    ∃ a b, Reachable "é\n+".toList a ∧ Reachable "é\n+".toList b ∧
      a.offset = 0 ∧ b.offset = 3 ∧ b.line = 2 ∧
      a.sliceUntil b = .ok "é\n".toList ∧ b.sliceUntil a = .error .reversedSlice := by
  have reach : Reachable "é\n+".toList (start "é\n+".toList) := ⟨[], List.mem_singleton_self _⟩
  have reach' : Reachable "é\n+".toList ⟨"é\n+".toList, ['+'], 2⟩ :=
    ⟨[.copy 0, .move 1 .next, .move 1 (.eatWhile (· = '\n'))], .tail _ (.head _)⟩
  obtain ⟨_, _, _, forwards, _⟩ := slices_of_reachable reach reach'
  obtain ⟨_, _, backwards, _⟩ := slices_of_reachable reach' reach
  obtain ⟨front, t, split, first, _, slice, _⟩ := forwards rfl (by decide)
  have front : front = [] := Text.eq_nil_of_utf8Size_le (Nat.le_of_eq first.symm)
  subst front
  have split : t ++ ['+'] = "é\n".toList ++ ['+'] := split.symm
  have eq : t = "é\n".toList := List.append_cancel_right split
  exact ⟨_, _, reach, reach', rfl, rfl, rfl, eq ▸ slice, backwards rfl (by decide)⟩

end Cursor

end Lox
