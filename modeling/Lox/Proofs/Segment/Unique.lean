import Lox.Proofs.Segment.Longest

/-!
# A source is cut in one way

A text of a class is of one class only, and the longest front part in a class is one text, so two
cuts of a source agree segment by segment (`Cut.unique`). Cutting off what `atFront` finds continues
a cut (`cut_atFront`), and a cut loses nothing of its source.
-/

namespace Lox

namespace Segment

variable {c : Char} {t u rest : Text} {segment segment' : Segment} {cuts : List (Segment × Text)}

/-- A text of a class is cut off as one segment of this class. -/
lemma atFront_of_spells (h : Spells (c :: u) segment) : (atFront c u).1 = segment := by
  cases segment with
  | blank =>
    obtain ⟨_, eq, blank⟩ := h
    cases eq
    rw [atFront_of_isBlank blank]
  | comment =>
    obtain ⟨_, eq, _⟩ := h
    cases eq
    rw [atFront_comment]
  | punctuator q => cases q <;> cases h <;> rfl
  | string =>
    obtain ⟨inside, eq, no⟩ := h
    rw [List.cons_append] at eq
    cases eq
    rw [atFront_string no]
  | number =>
    obtain ⟨digit, _⟩ := cases_of_isNumeral h
    rw [atFront_of_isDigit digit]
  | word =>
    obtain ⟨_, _, eq, letter, _⟩ := h
    cases eq
    rw [atFront_of_isLetter letter]
  | unclosedString => cases h
  | stray => cases h

lemma spells_unique (h : Spells t segment) (h' : Spells t segment') : segment = segment' := by
  obtain ⟨c, u, rfl⟩ := List.exists_cons_of_ne_nil (ne_nil_of_spells h)
  rw [← atFront_of_spells h, atFront_of_spells h']

/-- A source that begins with a text of a class has no fault in front. -/
lemma not_isLongest_nil (h : Spells t segment) : ¬ IsLongest [] (t ++ rest) := by
  intro longest
  have le := longest segment t (List.prefix_append t rest) h
  exact ne_nil_of_spells h (List.eq_nil_of_length_eq_zero (Nat.le_zero.mp le))

lemma eq_nil_of_cut_nil (cut : Cut [] cuts) : cuts = [] := by
  generalize eq : ([] : Text) = source at cut
  cases cut with
  | nil => rfl
  | segment spells => exact absurd (List.append_eq_nil_iff.mp eq.symm).1 (ne_nil_of_spells spells)
  | unclosedString => cases eq
  | stray => cases eq

/-- Cutting off the segment at the front cuts the whole source, if what is left is cut. -/
lemma cut_atFront (cut : Cut ((c :: t).drop ((atFront c t).2 + 1)) cuts) :
    Cut (c :: t) (((atFront c t).1, (c :: t).take ((atFront c t).2 + 1)) :: cuts) := by
  cases ok : (atFront c t).1.cause? with
  | none =>
    have split := List.take_append_drop ((atFront c t).2 + 1) (c :: t)
    have longest : IsLongest ((c :: t).take ((atFront c t).2 + 1))
        ((c :: t).take ((atFront c t).2 + 1) ++ (c :: t).drop ((atFront c t).2 + 1)) := by
      rw [split]
      exact isLongest_take
    have cut := Cut.segment (spells_atFront ok) longest cut
    rwa [split] at cut
  | some cause =>
    have longest : IsLongest [] (c :: t) := isLongest_nil (ok ▸ Option.some_ne_none cause)
    have shape := shape_atFront c t
    generalize atFront c t = front at shape ok cut
    cases shape with
    | unclosedString =>
      rw [List.drop_succ_cons, List.drop_length] at cut
      rw [List.take_succ_cons, List.take_length]
      rw [eq_nil_of_cut_nil cut]
      exact .unclosedString longest
    | stray ne => exact .stray ne longest cut
    | _ => cases ok

end Segment

open Segment

namespace Cut

variable {source : Text} {cuts cuts' : List (Segment × Text)}

/-- A source is cut in one way only. -/
theorem unique (cut : Cut source cuts) (cut' : Cut source cuts') : cuts' = cuts := by
  induction cut generalizing cuts' with
  | nil => exact eq_nil_of_cut_nil cut'
  | @segment segment t rest cuts spells longest _ ih =>
    generalize eq : t ++ rest = source at cut'
    cases cut' with
    | nil => exact absurd (List.append_eq_nil_iff.mp eq).1 (ne_nil_of_spells spells)
    | @segment segment' t' rest' cuts' spells' longest' cut' =>
      have front : t <+: t' ++ rest' := eq ▸ List.prefix_append t rest
      have front' : t' <+: t ++ rest := eq ▸ List.prefix_append t' rest'
      -- Each of the two texts is in a class and in front of the source, so neither is longer.
      have same : t.length = t'.length :=
        Nat.le_antisymm (longest' segment t front spells) (longest segment' t' front' spells')
      obtain ⟨rfl, rfl⟩ := List.append_inj eq same
      rw [spells_unique spells spells', ih cut']
    | unclosedString longest' => exact absurd (eq ▸ longest') (not_isLongest_nil spells)
    | stray _ longest' => exact absurd (eq ▸ longest') (not_isLongest_nil spells)
  | @unclosedString t longest =>
    generalize eq : '"' :: t = source at cut'
    cases cut' with
    | nil => cases eq
    | segment spells' => exact absurd (eq ▸ longest) (not_isLongest_nil spells')
    | unclosedString =>
      cases eq
      rfl
    | stray ne =>
      cases eq
      exact absurd rfl ne
  | @stray c rest cuts ne longest _ ih =>
    generalize eq : c :: rest = source at cut'
    cases cut' with
    | nil => cases eq
    | segment spells' => exact absurd (eq ▸ longest) (not_isLongest_nil spells')
    | unclosedString =>
      cases eq
      exact absurd rfl ne
    | stray _ _ cut' =>
      cases eq
      rw [ih cut']

theorem join (cut : Cut source cuts) : cuts.flatMap Prod.snd = source := by
  induction cut with
  | nil => rfl
  | segment _ _ _ ih => rw [List.flatMap_cons, ih]
  | unclosedString => rw [List.flatMap_cons, List.flatMap_nil, List.append_nil]
  | stray _ _ _ ih =>
    rw [List.flatMap_cons, ih]
    rfl

theorem ne_nil (cut : Cut source cuts) : ∀ piece ∈ cuts, piece.2 ≠ [] := by
  induction cut with
  | nil => exact nofun
  | segment spells _ _ ih => exact List.forall_mem_cons.mpr ⟨ne_nil_of_spells spells, ih⟩
  | unclosedString => exact List.forall_mem_cons.mpr ⟨List.cons_ne_nil _ _, nofun⟩
  | stray _ _ _ ih => exact List.forall_mem_cons.mpr ⟨List.cons_ne_nil _ _, ih⟩

end Cut

end Lox
