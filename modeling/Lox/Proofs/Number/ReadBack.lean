import Lox.Number.Shortest
import Mathlib.Algebra.Order.Field.Rat
import Mathlib.Tactic.NormNum

/-!
# Numbers that are read back

A decimal is read as the double nearest to its value. How the value is split into digits and an
exponent does not matter (`Decimal.magnitude_eq_of_value_eq`), and the exact value of a double is
read as this double (`Decimal.magnitude_ofMagnitude`). So the decimal that a double is printed as,
of which only the reading was tested, is always read back (`Decimal.magnitude_shortest`).
-/

namespace Lox

namespace Binary64

variable {k num den num' den' m : Nat}

lemma roundHalfEven_mul_left (num den) (pos : 0 < k) :
    roundHalfEven (k * num) (k * den) = roundHalfEven num den := by
  simp only [roundHalfEven, Nat.mul_div_mul_left _ _ pos, Nat.mul_mod_mul_left,
    Nat.mul_left_comm 2 k, Nat.mul_lt_mul_left pos, Nat.mul_right_inj (Nat.ne_of_gt pos)]

lemma roundHalfEven_mul_right (num) (pos : 0 < den) : roundHalfEven (num * den) den = num := by
  rw [roundHalfEven, Nat.mul_mod_left, Nat.mul_div_cancel _ pos]
  exact if_pos (.inl pos)

lemma nearestMagnitude_mul_left (num den) (pos : 0 < k) :
    nearestMagnitude (k * num) (k * den) = nearestMagnitude num den := by
  simp only [nearestMagnitude, Nat.shiftLeft_eq, Nat.mul_assoc, Nat.mul_div_mul_left _ _ pos,
    roundHalfEven_mul_left _ _ pos]

/-- The nearest magnitude is that of the quotient. -/
lemma nearestMagnitude_congr (pos : 0 < den) (pos' : 0 < den')
    (eq : num * den' = num' * den) : nearestMagnitude num den = nearestMagnitude num' den' := by
  calc nearestMagnitude num den
      = nearestMagnitude (den' * num) (den' * den) := (nearestMagnitude_mul_left _ _ pos').symm
    _ = nearestMagnitude (den * num') (den * den') := by
      rw [Nat.mul_comm den' num, eq, Nat.mul_comm num', Nat.mul_comm den']
    _ = nearestMagnitude num' den' := nearestMagnitude_mul_left _ _ pos

/-- A whole number of units is rounded to the significand at its own exponent. -/
lemma nearestMagnitude_whole (u : Nat) :
    nearestMagnitude u (2 ^ 1074) =
      min ((u.log2 - 52) * binade + roundHalfEven u (2 ^ (u.log2 - 52))) infinityMagnitude := by
  have pos := Nat.two_pow_pos 1074
  rw [nearestMagnitude, Nat.shiftLeft_eq]
  generalize 2 ^ 1074 = den at pos
  simp only [Nat.mul_div_cancel _ pos, Nat.shiftLeft_eq]
  rw [Nat.mul_comm u, roundHalfEven_mul_left _ _ pos]

lemma units_of_lt (lt : m < binade) : units m = m := by
  rw [units, significand, if_pos lt, Nat.div_eq_of_lt lt]
  rfl

lemma units_of_le (le : binade ≤ m) :
    units m = (binade + m % binade) * 2 ^ (m / binade - 1) := by
  rw [units, significand, if_neg (Nat.not_lt_of_le le), Nat.shiftLeft_eq]

/-- In the lowest binade there is nothing to round off. -/
lemma log2_sub_of_lt (lt : m < binade) : m.log2 - 52 = 0 := by
  cases m with
  | zero => rfl
  | succ m => exact Nat.sub_eq_zero_of_le (Nat.le_of_lt ((Nat.log2_lt (Nat.succ_ne_zero m)).mpr lt))

/-- A significand with the leading one has 53 bits. -/
lemma log2_significand (r n : Nat) (lt : r < binade) : ((binade + r) * 2 ^ n).log2 = 52 + n := by
  have pos : 0 < 2 ^ n := Nat.two_pow_pos n
  have size : binade = 2 ^ 52 := rfl
  rw [Nat.log2_eq_iff (Nat.mul_ne_zero (by omega) (Nat.ne_of_gt pos)), Nat.add_right_comm,
    Nat.pow_add, Nat.pow_add, Nat.mul_lt_mul_right pos]
  exact ⟨Nat.mul_le_mul_right _ (by omega), by omega⟩

/-- The value of a finite magnitude is nearest to itself. -/
lemma nearestMagnitude_units (finite : m < infinityMagnitude) :
    nearestMagnitude (units m) (2 ^ 1074) = m := by
  rw [nearestMagnitude_whole]
  by_cases lt : m < binade
  · have exact : roundHalfEven m 1 = m := by simpa using roundHalfEven_mul_right m Nat.one_pos
    rw [units_of_lt lt, log2_sub_of_lt lt, Nat.zero_mul, Nat.zero_add, Nat.pow_zero, exact]
    exact Nat.min_eq_left (Nat.le_of_lt finite)
  · have le : binade ≤ m := Nat.le_of_not_lt lt
    have pos : 0 < binade := by decide
    have whole : 1 ≤ m / binade := (Nat.one_le_div_iff pos).mpr le
    have split : m / binade * binade + m % binade = m := Nat.div_add_mod' m binade
    rw [units_of_le le, log2_significand _ _ (Nat.mod_lt m pos), Nat.add_sub_cancel_left,
      roundHalfEven_mul_right _ (Nat.two_pow_pos _), ← Nat.add_assoc, ← Nat.succ_mul,
      Nat.succ_eq_add_one, Nat.sub_add_cancel whole, split]
    exact Nat.min_eq_left (Nat.le_of_lt finite)

end Binary64

namespace Decimal

/-- The value as a fraction. -/
def value (d : Decimal) : ℚ := d.digits * 10 ^ d.exponent

variable {d d' : Decimal} {m n : Nat}

lemma value_eq_div (d : Decimal) :
    d.value = (d.digits * 10 ^ d.exponent.toNat : ℕ) / (10 ^ (-d.exponent).toNat : ℕ) := by
  have split : (d.exponent.toNat : ℤ) - (-d.exponent).toNat = d.exponent :=
    Int.toNat_sub_toNat_neg d.exponent
  calc d.value = d.digits * 10 ^ ((d.exponent.toNat : ℤ) - (-d.exponent).toNat) := by
        rw [split, value]
    _ = d.digits * (10 ^ d.exponent.toNat / 10 ^ (-d.exponent).toNat) := by
        rw [zpow_sub₀ (by norm_num), zpow_natCast, zpow_natCast]
    _ = _ := by
        push_cast
        rw [mul_div_assoc]

lemma magnitude_le (d : Decimal) : d.magnitude ≤ Binary64.infinityMagnitude := by
  rw [magnitude, Binary64.nearestMagnitude]
  exact Nat.min_le_right _ _

/-- Decimals of one value are read as one double. -/
lemma magnitude_eq_of_value_eq (eq : d.value = d'.value) : d.magnitude = d'.magnitude := by
  have pos (n : ℕ) : 0 < 10 ^ n := Nat.pow_pos (by decide)
  have ne (n : ℕ) : ((10 ^ n : ℕ) : ℚ) ≠ 0 := Nat.cast_ne_zero.mpr (Nat.ne_of_gt (pos n))
  rw [value_eq_div, value_eq_div, div_eq_div_iff (ne _) (ne _)] at eq
  exact Binary64.nearestMagnitude_congr (pos _) (pos _) (by exact_mod_cast eq)

/-- A binary fraction is read through its decimal digits as through its own. -/
lemma magnitude_binary (u n : ℕ) :
    (mk (u * Nat.pow 5 n) (-n)).magnitude = Binary64.nearestMagnitude u (2 ^ n) := by
  have whole : (-(n : ℤ)).toNat = 0 := Int.toNat_neg_natCast n
  have places : (- -(n : ℤ)).toNat = n := by rw [Int.neg_neg, Int.toNat_natCast]
  have ten : Nat.pow 10 n = Nat.pow 5 n * 2 ^ n := Nat.mul_pow 5 2 n
  rw [magnitude, whole, places, ten, Nat.mul_comm u, Nat.mul_assoc]
  refine (Binary64.nearestMagnitude_mul_left _ _ (Nat.pow_pos (by decide))).trans ?_
  rw [Nat.pow_eq, Nat.pow_zero, Nat.mul_one]

/-- The exact value of a double is read as this double. -/
lemma magnitude_ofMagnitude (finite : m < Binary64.infinityMagnitude) :
    (ofMagnitude m).magnitude = m :=
  (magnitude_binary (Binary64.units m) 1074).trans (Binary64.nearestMagnitude_units finite)

lemma magnitude_of_nearestReadingBack? (found : nearestReadingBack? m n = some d) :
    d.magnitude = m := by
  simp only [nearestReadingBack?] at found
  split at found
  case isTrue low =>
    split at found
    case isTrue high =>
      cases found
      exact high.1
    case isFalse =>
      cases found
      exact low
  case isFalse =>
    split at found
    case isTrue high =>
      cases found
      exact high
    case isFalse => cases found

/-- The decimal that a double is printed as is read back as this double. -/
lemma magnitude_shortest (finite : m < Binary64.infinityMagnitude) :
    (shortest m).magnitude = m := by
  rw [shortest]
  cases found : (List.range 17).findSome? fun n => nearestReadingBack? m (n + 1) with
  | none => exact magnitude_ofMagnitude finite
  | some d =>
    obtain ⟨n, _, found⟩ := List.exists_of_findSome?_eq_some found
    exact magnitude_of_nearestReadingBack? found

end Decimal

end Lox
