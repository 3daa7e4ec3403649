import Lox.Proofs.Number.Order
import Lox.Proofs.Number.Printed

/-!
# Numbers that are written without an exponent

A decimal is written as digits around a point, or as a numeral with an exponent behind it. Which of
the two it is depends on the exponent of its leading digit and so on its value alone
(`Decimal.e_mem_toText_iff`), and a double is on the same side of both bounds as the decimal that
it is printed as (`Binary64.e_notMem_shortest_iff`).
-/

namespace Lox

namespace Segment

/-- Digits, a point, and digits. -/
def IsFraction (t : Text) : Prop :=
  ∃ whole fraction : Text, t = whole ++ '.' :: fraction ∧
    whole ≠ [] ∧ (∀ c ∈ whole, c.isDigit) ∧ fraction ≠ [] ∧ ∀ c ∈ fraction, c.isDigit

variable {t : Text}

lemma IsFraction.isNumeral (fraction : IsFraction t) : IsNumeral t := .inr fraction

lemma IsNumeral.isFraction (numeral : IsNumeral t) (point : '.' ∈ t) : IsFraction t := by
  obtain ⟨_, all⟩ | fraction := numeral
  · exact absurd (all '.' point) (by decide)
  · exact fraction

end Segment

open Segment

namespace Decimal

variable {digits : Text} {lead : ℤ} {d : Decimal} {m : Nat}

lemma e_mem_layout_iff (all : ∀ c ∈ digits, c.isDigit) :
    'e' ∈ layout digits lead ↔ lead < plainFrom ∨ plainBelow ≤ lead := by
  have no : 'e' ∉ digits := fun mem => absurd (all 'e' mem) (by decide)
  have front (n : ℕ) : 'e' ∉ digits.take n := fun mem => no (List.mem_of_mem_take mem)
  have behind (n : ℕ) : 'e' ∉ digits.drop n := fun mem => no (List.mem_of_mem_drop mem)
  rw [layout]
  split
  case isTrue far =>
    exact iff_of_true (List.mem_append_right _ List.mem_cons_self) far
  case isFalse near =>
    refine iff_of_false ?_ near
    split
    case isTrue => simp [no]
    case isFalse =>
      dsimp only
      split <;> simp [front, behind]

lemma point_mem_layout (near : ¬ (lead < plainFrom ∨ plainBelow ≤ lead)) :
    '.' ∈ layout digits lead := by
  rw [layout, if_neg near]
  split
  case isTrue => exact List.mem_cons_of_mem _ List.mem_cons_self
  case isFalse => exact List.mem_append_right _ List.mem_cons_self

/-- The text of a decimal that is not zero is laid out by the place of its leading digit. -/
lemma exists_layout (ne : d.digits ≠ 0) :
    ∃ digits lead, d.toText = layout digits lead ∧ (∀ c ∈ digits, c.isDigit) ∧
      ∀ n : ℤ, n ≤ lead ↔ 10 ^ n ≤ d.value := by
  obtain ⟨k, split⟩ := Text.exists_append_replicate '0' (Text.ofNat d.digits)
  refine ⟨(Text.ofNat d.digits).dropTrailing '0', _, if_neg ne, ?_, le_lead_iff ne⟩
  intro c mem
  have mem : c ∈ Text.ofNat d.digits := by
    rw [split]
    exact List.mem_append_left _ mem
  exact Text.isDigit_of_mem_ofNat mem

/-- A decimal is written with an exponent if it is not zero and outside of the bounds. -/
lemma e_mem_toText_iff (d : Decimal) :
    'e' ∈ d.toText ↔
      d.digits ≠ 0 ∧ ¬ ((10 : ℚ) ^ (-4 : ℤ) ≤ d.value ∧ d.value < 10 ^ (16 : ℤ)) := by
  by_cases zero : d.digits = 0
  · rw [toText, if_pos zero]
    exact iff_of_false (by decide) fun both => both.1 zero
  · obtain ⟨digits, lead, eq, all, bounds⟩ := exists_layout zero
    have high : d.value < 10 ^ (16 : ℤ) ↔ ¬ 16 ≤ lead := by rw [bounds, not_le]
    rw [eq, e_mem_layout_iff all, high, ← bounds, plainFrom, plainBelow]
    omega

/-- Without an exponent a decimal is written as digits around a point, which read as its value. -/
lemma isFraction_toText (no : 'e' ∉ d.toText) :
    IsFraction d.toText ∧ ∃ d', ofNumeral? d.toText = some d' ∧ d'.value = d.value := by
  have point : '.' ∈ d.toText := by
    by_cases zero : d.digits = 0
    · rw [toText, if_pos zero]
      decide
    · obtain ⟨digits, lead, eq, all, _⟩ := exists_layout zero
      rw [eq, e_mem_layout_iff all] at no
      rw [eq]
      exact point_mem_layout no
  have reads := reads_toText d
  generalize d.toText = t at no point reads
  generalize d.value = x at reads
  cases reads with
  | plain numeral found => exact ⟨numeral.isFraction point, _, found, rfl⟩
  | exponent => exact absurd (List.mem_append_right _ List.mem_cons_self) no

/-- With an exponent it is written as a numeral in front of the exponent. -/
lemma exists_exponent (e : 'e' ∈ d.toText) :
    ∃ front n, d.toText = front ++ 'e' :: Text.ofInt n ∧ IsNumeral front := by
  have reads := reads_toText d
  generalize d.toText = t at e reads
  generalize d.value = x at reads
  cases reads with
  | plain numeral => exact absurd rfl (numeral.ne_e 'e' e)
  | exponent n numeral => exact ⟨_, n, rfl, numeral⟩

/-- The power of ten is read as a double that is printed as it and not below it. -/
structure IsBound (n : ℤ) : Prop where
  printed : shortest (mk 1 n).magnitude = mk 1 n
  below : (10 : ℚ) ^ n ≤ (ofMagnitude (mk 1 n).magnitude).value

lemma isBound_low : IsBound (-4) where
  printed := by decide +kernel
  below := (pow_le_value_iff _ 1070).mpr (by decide +kernel)

lemma isBound_high : IsBound 16 where
  printed := by decide +kernel
  below := (pow_le_value_iff _ 1090).mpr (by decide +kernel)

lemma IsBound.le_iff {n : ℤ} (bound : IsBound n) (finite : m < Binary64.infinityMagnitude) :
    (10 : ℚ) ^ n ≤ (shortest m).value ↔ 10 ^ n ≤ (ofMagnitude m).value := by
  have power : (Decimal.mk 1 n).value = 10 ^ n := by rw [value, Nat.cast_one, one_mul]
  rw [← power]
  exact le_value_shortest_iff finite (congrArg value bound.printed) (power.trans_le bound.below)

lemma digits_shortest_eq_zero_iff (finite : m < Binary64.infinityMagnitude) :
    (shortest m).digits = 0 ↔ m = 0 := by
  constructor
  · intro zero
    have nothing : (shortest m).value = (mk 0 0).value := by
      rw [value, value, zero, Nat.cast_zero, zero_mul, zero_mul]
    exact (magnitude_shortest finite).symm.trans (magnitude_eq_of_value_eq nothing)
  · rintro rfl
    decide +kernel

end Decimal

namespace Binary64

variable {x : Binary64}

/-- The number is zero, or its value is at least a ten-thousandth and below ten to the sixteenth. -/
def IsPlain (x : Binary64) : Prop :=
  x.magnitude = 0 ∨
    (10 : ℚ) ^ (-4 : ℤ) ≤ (Decimal.ofMagnitude x.magnitude).value ∧
      (Decimal.ofMagnitude x.magnitude).value < 10 ^ (16 : ℤ)

/-- Such numbers and no others are written without an exponent. -/
lemma e_notMem_shortest_iff (finite : x.magnitude < infinityMagnitude) :
    'e' ∉ (Decimal.shortest x.magnitude).toText ↔ x.IsPlain := by
  rw [Decimal.e_mem_toText_iff, IsPlain, ne_eq, Decimal.digits_shortest_eq_zero_iff finite,
    ← not_le, ← not_le, Decimal.isBound_low.le_iff finite, Decimal.isBound_high.le_iff finite]
  tauto

end Binary64

end Lox
