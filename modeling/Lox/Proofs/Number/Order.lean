import Lox.Proofs.Number.ReadBack
import Mathlib.Algebra.Order.Field.Power
import Mathlib.Data.Nat.Log

/-!
# Reading keeps the order

Of two decimals the larger is not read as the smaller double (`Decimal.magnitude_mono`), and so the
doubles are in the order of their exact values. The decimal that a double is printed as need not be
its exact value, but both are on the same side of every bound that is printed as itself
(`Decimal.le_value_shortest_iff`).
-/

namespace Lox

namespace Binary64

variable {num num' den : Nat}

lemma roundHalfEven_mono (le : num ≤ num') :
    roundHalfEven num den ≤ roundHalfEven num' den := by
  have split := Nat.div_add_mod num den
  have split' := Nat.div_add_mod num' den
  obtain lt | eq := Nat.lt_or_eq_of_le (Nat.div_le_div_right (c := den) le)
  · rw [roundHalfEven, roundHalfEven]
    split <;> split <;> omega
  · -- With one quotient the smaller remainder is not rounded up where the larger is not.
    rw [eq] at split
    have rem : num % den ≤ num' % den := by omega
    rw [roundHalfEven, roundHalfEven, eq]
    split <;> split <;> omega

/-- What is below a whole number is not rounded above it. -/
lemma roundHalfEven_le {k : Nat} (lt : num < k * den) : roundHalfEven num den ≤ k := by
  have below : num / den < k := Nat.div_lt_of_lt_mul (Nat.mul_comm k den ▸ lt)
  rw [roundHalfEven]
  split <;> omega

lemma le_roundHalfEven {k : Nat} (pos : 0 < den) (le : k * den ≤ num) :
    k ≤ roundHalfEven num den := by
  have above : k ≤ num / den := (Nat.le_div_iff_mul_le pos).mpr le
  rw [roundHalfEven]
  split <;> omega

/-- The significand has 53 bits, or it is the carry out of them. -/
lemma roundHalfEven_shift_le (pos : 0 < den) :
    roundHalfEven num (den * 2 ^ ((num / den).log2 - 52)) ≤ 2 * binade := by
  apply roundHalfEven_le
  generalize shift : (num / den).log2 - 52 = n
  have below : num / den < 2 ^ (53 + n) :=
    Nat.lt_of_lt_of_le Nat.lt_log2_self (Nat.pow_le_pow_right Nat.two_pos (by omega))
  rw [Nat.div_lt_iff_lt_mul pos] at below
  calc num < 2 ^ (53 + n) * den := below
    _ = 2 * binade * (den * 2 ^ n) := by
      rw [Nat.pow_add, Nat.mul_assoc, Nat.mul_comm (2 ^ n)]
      rfl

/-- Above the lowest binade the significand has its leading one. -/
lemma le_roundHalfEven_shift (pos : 0 < den) (shifted : 0 < (num / den).log2 - 52) :
    binade ≤ roundHalfEven num (den * 2 ^ ((num / den).log2 - 52)) := by
  apply le_roundHalfEven (Nat.mul_pos pos (Nat.two_pow_pos _))
  have ne : num / den ≠ 0 := by
    intro zero
    rw [zero, Nat.log2_zero] at shifted
    omega
  have above := Nat.log2_self_le ne
  rw [Nat.le_div_iff_mul_le pos] at above
  generalize (num / den).log2 = log at shifted above
  obtain ⟨n, rfl⟩ := Nat.exists_eq_add_of_le (Nat.le_of_lt (Nat.lt_of_sub_pos shifted))
  rw [Nat.add_sub_cancel_left]
  calc binade * (den * 2 ^ n) = 2 ^ (52 + n) * den := by
        rw [Nat.pow_add, Nat.mul_assoc, Nat.mul_comm (2 ^ n)]
        rfl
    _ ≤ num := above

/-- A larger numerator does not give a smaller magnitude. -/
lemma nearestMagnitude_mono (pos : 0 < den) (le : num ≤ num') :
    nearestMagnitude num den ≤ nearestMagnitude num' den := by
  have le : num <<< 1074 ≤ num' <<< 1074 := by
    rw [Nat.shiftLeft_eq, Nat.shiftLeft_eq]
    exact Nat.mul_le_mul_right _ le
  rw [nearestMagnitude, nearestMagnitude]
  generalize num <<< 1074 = s at le
  generalize num' <<< 1074 = s' at le
  simp only [Nat.shiftLeft_eq]
  refine min_le_min_right _ ?_
  have logs : (s / den).log2 ≤ (s' / den).log2 := by
    rw [Nat.log2_eq_log_two, Nat.log2_eq_log_two]
    exact Nat.log_mono_right (Nat.div_le_div_right le)
  obtain lt | eq := Nat.lt_or_eq_of_le (Nat.sub_le_sub_right logs 52)
  · -- In a higher binade even the least significand is as large as the carry out of a lower one.
    have carry : roundHalfEven s _ ≤ 2 * binade := roundHalfEven_shift_le pos
    have leading := le_roundHalfEven_shift pos (Nat.zero_lt_of_lt lt)
    have next := Nat.mul_le_mul_right binade (Nat.succ_le_of_lt lt)
    rw [Nat.succ_mul] at next
    omega
  · rw [eq]
    exact Nat.add_le_add_left (roundHalfEven_mono le) _

/-- The larger quotient does not have the smaller magnitude. -/
lemma nearestMagnitude_le_of_mul_le {den' : Nat} (pos : 0 < den) (pos' : 0 < den')
    (le : num * den' ≤ num' * den) : nearestMagnitude num den ≤ nearestMagnitude num' den' := by
  have le : den' * num ≤ den * num' := by rwa [Nat.mul_comm den', Nat.mul_comm den]
  calc nearestMagnitude num den
      = nearestMagnitude (den' * num) (den' * den) := (nearestMagnitude_mul_left _ _ pos').symm
    _ ≤ nearestMagnitude (den * num') (den' * den) :=
      nearestMagnitude_mono (Nat.mul_pos pos' pos) le
    _ = nearestMagnitude (den * num') (den * den') := by rw [Nat.mul_comm den']
    _ = nearestMagnitude num' den' := nearestMagnitude_mul_left _ _ pos

end Binary64

namespace Decimal

variable {d d' b : Decimal} {m n : Nat}

/-- The larger decimal is not read as the smaller double. -/
theorem magnitude_mono (le : d.value ≤ d'.value) : d.magnitude ≤ d'.magnitude := by
  have pos (n : ℕ) : 0 < 10 ^ n := Nat.pow_pos (by decide)
  have pos' (n : ℕ) : (0 : ℚ) < (10 ^ n : ℕ) := Nat.cast_pos.mpr (pos n)
  rw [value_eq_div, value_eq_div, div_le_div_iff₀ (pos' _) (pos' _)] at le
  exact Binary64.nearestMagnitude_le_of_mul_le (pos _) (pos _) (by exact_mod_cast le)

/-- The doubles are in the order of their exact values. -/
lemma value_ofMagnitude_mono (finite : n < Binary64.infinityMagnitude) (le : m ≤ n) :
    (ofMagnitude m).value ≤ (ofMagnitude n).value := by
  refine le_of_not_gt fun lt => ?_
  have reads := magnitude_mono lt.le
  rw [magnitude_ofMagnitude finite, magnitude_ofMagnitude (Nat.lt_of_le_of_lt le finite)] at reads
  rw [Nat.le_antisymm le reads] at lt
  exact lt_irrefl _ lt

/-- A double and the decimal that it is printed as are on the same side of a bound, if the bound is
not above the double it is read as and this is printed as the bound. -/
theorem le_value_shortest_iff (finite : m < Binary64.infinityMagnitude)
    (printed : (shortest b.magnitude).value = b.value)
    (below : b.value ≤ (ofMagnitude b.magnitude).value) :
    b.value ≤ (shortest m).value ↔ b.value ≤ (ofMagnitude m).value := by
  constructor
  · intro le
    have reads := magnitude_mono le
    rw [magnitude_shortest finite] at reads
    exact below.trans (value_ofMagnitude_mono finite reads)
  · intro le
    refine le_of_not_gt fun lt => ?_
    have reads := magnitude_mono le
    have reads' := magnitude_mono lt.le
    rw [magnitude_ofMagnitude finite] at reads
    rw [magnitude_shortest finite] at reads'
    rw [Nat.le_antisymm reads' reads, printed] at lt
    exact lt_irrefl _ lt

/-- A power of ten is no larger than the decimal if the digits reach up to its place. -/
lemma pow_le_value_iff (d : Decimal) (k : ℕ) :
    (10 : ℚ) ^ (d.exponent + k) ≤ d.value ↔ 10 ^ k ≤ d.digits := by
  have pos : (0 : ℚ) < 10 ^ d.exponent := zpow_pos (by norm_num) _
  rw [value, zpow_add₀ (by norm_num), mul_comm, mul_le_mul_iff_left₀ pos, zpow_natCast]
  exact_mod_cast Iff.rfl

/-- The exponent of the leading digit is that of the largest power of ten below the decimal. -/
lemma le_lead_iff (ne : d.digits ≠ 0) (n : ℤ) :
    n ≤ d.exponent + (Text.ofNat d.digits).length - 1 ↔ 10 ^ n ≤ d.value := by
  obtain ⟨k, rfl⟩ | ⟨k, rfl⟩ : (∃ k : ℕ, n = d.exponent + k) ∨ ∃ k : ℕ, n = d.exponent - k := by
    obtain le | le := Int.le_total d.exponent n
    · exact .inl ⟨(n - d.exponent).toNat, by omega⟩
    · exact .inr ⟨(d.exponent - n).toNat, by omega⟩
  · rw [pow_le_value_iff, ← Nat.not_lt]
    cases k with
    | zero =>
      have some : 0 < (Text.ofNat d.digits).length := Nat.length_toDigits_pos
      rw [Nat.pow_zero]
      omega
    | succ k =>
      rw [← Nat.length_toDigits_le_iff (by decide) (Nat.succ_pos k), Text.ofNat]
      omega
  · have some : 0 < (Text.ofNat d.digits).length := Nat.length_toDigits_pos
    have least := (pow_le_value_iff d 0).mpr (Nat.pos_of_ne_zero ne)
    have small : (10 : ℚ) ^ (d.exponent - k) ≤ 10 ^ (d.exponent + (0 : ℕ)) :=
      zpow_le_zpow_right₀ (by norm_num) (by omega)
    exact ⟨fun _ => small.trans least, fun _ => by omega⟩

end Decimal

end Lox
