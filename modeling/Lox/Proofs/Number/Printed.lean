import Lox.Proofs.Number.ReadBack
import Lox.Proofs.Scan.Reading
import Lox.Proofs.Text.Digits
import Lox.Proofs.Text.Front

/-!
# A number is told by its text

What is written for a decimal is a numeral of the language, with or without an exponent behind it,
and it reads as the value of the decimal (`Decimal.reads_toText`). A text reads as one value only
(`Decimal.Reads.unique`), and the value of a shortest decimal is read back. So two doubles are
written with the same text only if they are the same, bit for bit
(`Binary64.eq_of_toText_eq`).
-/

namespace Lox

lemma Text.exists_append_replicate (c : Char) (t : Text) :
    ∃ n, t = t.dropTrailing c ++ List.replicate n c := by
  have run : ∀ x ∈ t.reverse.takeWhile (· = c), x = c := by
    intro x mem
    exact of_decide_eq_true (List.mem_takeWhile_imp mem :)
  refine ⟨(t.reverse.takeWhile (· = c)).length, ?_⟩
  calc t = (t.reverse.takeWhile (· = c) ++ t.reverse.dropWhile (· = c)).reverse := by
        rw [List.takeWhile_append_dropWhile, List.reverse_reverse]
    _ = t.dropTrailing c ++ (t.reverse.takeWhile (· = c)).reverse := by
        rw [List.reverse_append, dropTrailing]
    _ = _ := by
        rw [List.eq_replicate_of_mem run, List.reverse_replicate, List.length_replicate]

namespace Segment

variable {t : Text} {c : Char}

lemma IsNumeral.exists_cons (numeral : IsNumeral t) : ∃ c rest, t = c :: rest ∧ c.isDigit := by
  obtain ⟨ne, all⟩ | ⟨whole, fraction, rfl, ne, all, _⟩ := numeral
  · obtain ⟨c, rest, rfl⟩ := List.exists_cons_of_ne_nil ne
    exact ⟨c, rest, rfl, all c List.mem_cons_self⟩
  · obtain ⟨c, rest, rfl⟩ := List.exists_cons_of_ne_nil ne
    exact ⟨c, _, rfl, all c List.mem_cons_self⟩

lemma IsNumeral.mem (numeral : IsNumeral t) (mem : c ∈ t) : c.isDigit ∨ c = '.' := by
  obtain ⟨_, all⟩ | ⟨whole, fraction, rfl, _, all, _, all'⟩ := numeral
  · exact .inl (all c mem)
  · obtain mem | mem := List.mem_append.mp mem
    · exact .inl (all c mem)
    · obtain rfl | mem := List.mem_cons.mp mem
      · exact .inr rfl
      · exact .inl (all' c mem)

lemma IsNumeral.ne_e (numeral : IsNumeral t) : ∀ c ∈ t, c ≠ 'e' := by
  rintro _ mem rfl
  exact absurd (numeral.mem mem) (by decide)

end Segment

namespace Decimal

open Segment

/-- The text is a numeral of this value, or one with an exponent behind it. -/
inductive Reads : Text → ℚ → Prop where
  | plain {t d} :
    IsNumeral t →
    ofNumeral? t = some d →
    Reads t d.value
  | exponent {t d} (n : Int) :
    IsNumeral t →
    ofNumeral? t = some d →
    Reads (t ++ 'e' :: Text.ofInt n) (d.value * 10 ^ n)

variable {t u digits : Text} {d d' : Decimal} {x y : ℚ} {n : ℤ}

lemma value_mul_zpow (d : Decimal) (n : ℤ) :
    d.value * 10 ^ n = (mk d.digits (d.exponent + n)).value := by
  rw [value, value, mul_assoc, ← zpow_add₀ (by norm_num)]

lemma value_mul_pow (digits k : ℕ) (n : ℤ) :
    (mk (10 ^ k * digits) n).value = (mk digits (n + k)).value := by
  rw [← value_mul_zpow ⟨digits, n⟩, value, value]
  push_cast
  rw [zpow_natCast, mul_comm (10 ^ k : ℚ), mul_assoc, mul_assoc, mul_comm (10 ^ k : ℚ)]

lemma Reads.congr (reads : Reads t x) (eq : x = y) : Reads t y := eq ▸ reads

lemma zero_isDigit (k : ℕ) : ∀ c ∈ List.replicate k '0', c.isDigit := by
  intro c mem
  rw [List.eq_of_mem_replicate mem]
  rfl

/-- The point may stand anywhere among the digits: what counts is how many are behind it. -/
lemma reads_fraction (whole fraction) (ne : whole ≠ []) (ne' : fraction ≠ [])
    (all : ∀ c ∈ whole ++ fraction, c.isDigit) (eq : n = -fraction.length) :
    Reads (whole ++ '.' :: fraction) (mk (Nat.ofDigitChars 10 (whole ++ fraction) 0) n).value := by
  obtain ⟨all, all'⟩ := List.forall_mem_append.mp all
  rw [eq]
  exact .plain (.inr ⟨_, _, rfl, ne, all, ne', all'⟩) (ofNumeral?_fraction ne all ne' all')

lemma reads_exponent (c : Char) (fraction : Text) (all : ∀ x ∈ c :: fraction, x.isDigit) (n : ℤ) :
    Reads ([c] ++ (if fraction.isEmpty then [] else '.' :: fraction) ++ 'e' :: Text.ofInt n)
      (mk (Nat.ofDigitChars 10 (c :: fraction) 0) (n - fraction.length)).value := by
  obtain ⟨digit, all'⟩ := List.forall_mem_cons.mp all
  cases fraction with
  | nil =>
    have ne := List.cons_ne_nil c []
    have reads := Reads.exponent n (.inl ⟨ne, all⟩) (ofNumeral?_whole ne all)
    rw [value_mul_zpow] at reads
    exact reads.congr (by simp)
  | cons c' fraction =>
    have single : ∀ x ∈ [c], x.isDigit := List.forall_mem_singleton.mpr digit
    have ne := List.cons_ne_nil c []
    have ne' := List.cons_ne_nil c' fraction
    have reads := Reads.exponent n (.inr ⟨_, _, rfl, ne, single, ne', all'⟩)
      (ofNumeral?_fraction ne single ne' all')
    rw [value_mul_zpow] at reads
    exact reads.congr (by rw [Int.add_comm]; rfl)

/-- Zeros in front count nothing. -/
lemma reads_behindZeros (ne : digits ≠ []) (all : ∀ c ∈ digits, c.isDigit) (k : ℕ)
    (eq : n = -(k + digits.length)) :
    Reads ('0' :: '.' :: List.replicate k '0' ++ digits)
      (mk (Nat.ofDigitChars 10 digits 0) n).value := by
  have behind : List.replicate k '0' ++ digits ≠ [] := List.append_ne_nil_of_right_ne_nil _ ne
  have every : ∀ c ∈ ['0'] ++ (List.replicate k '0' ++ digits), c.isDigit :=
    List.forall_mem_append.mpr ⟨zero_isDigit 1, List.forall_mem_append.mpr ⟨zero_isDigit k, all⟩⟩
  have reads := reads_fraction (n := n) ['0'] _ (List.cons_ne_nil _ _) behind every (by simp [eq])
  rwa [← List.append_assoc, Nat.ofDigitChars_append, ← List.replicate_one,
    List.replicate_append_replicate, Nat.ofDigitChars_replicate_zero, Nat.mul_zero] at reads

/-- A zero behind the digits moves the point. -/
lemma reads_beforeZeros (ne : digits ≠ []) (all : ∀ c ∈ digits, c.isDigit) (k : ℕ) :
    Reads (digits ++ List.replicate k '0' ++ '.' :: ['0'])
      (mk (Nat.ofDigitChars 10 digits 0) k).value := by
  have front : digits ++ List.replicate k '0' ≠ [] := List.append_ne_nil_of_left_ne_nil ne _
  have every : ∀ c ∈ digits ++ List.replicate k '0' ++ ['0'], c.isDigit :=
    List.forall_mem_append.mpr ⟨List.forall_mem_append.mpr ⟨all, zero_isDigit k⟩, zero_isDigit 1⟩
  have zeros : Nat.ofDigitChars 10 (digits ++ List.replicate k '0' ++ ['0']) 0 =
      10 ^ (k + 1) * Nat.ofDigitChars 10 digits 0 := by
    rw [List.append_assoc, ← List.replicate_one, List.replicate_append_replicate,
      Nat.ofDigitChars_append, Nat.ofDigitChars_replicate_zero]
  have reads := reads_fraction (n := -1) _ ['0'] front (List.cons_ne_nil _ _) every rfl
  rw [zeros, value_mul_pow] at reads
  exact reads.congr (by simp)

lemma reads_within (all : ∀ c ∈ digits, c.isDigit) {k : ℕ} (pos : 0 < k) (lt : k < digits.length) :
    Reads (digits.take k ++ '.' :: digits.drop k)
      (mk (Nat.ofDigitChars 10 digits 0) (k - digits.length)).value := by
  have front : digits.take k ≠ [] := List.ne_nil_of_length_pos (by simp; omega)
  have behind : digits.drop k ≠ [] := List.ne_nil_of_length_pos (by simp; omega)
  have every : ∀ c ∈ digits.take k ++ digits.drop k, c.isDigit := by rwa [List.take_append_drop]
  have reads := reads_fraction (n := k - digits.length) _ _ front behind every (by simp; omega)
  rwa [List.take_append_drop] at reads

/-- The leading digit has the exponent `lead`. -/
lemma reads_layout (ne : digits ≠ []) (all : ∀ c ∈ digits, c.isDigit) (lead : ℤ) :
    Reads (layout digits lead)
      (mk (Nat.ofDigitChars 10 digits 0) (lead + 1 - digits.length)).value := by
  rw [layout]
  split
  case isTrue =>
    obtain ⟨c, fraction, rfl⟩ := List.exists_cons_of_ne_nil ne
    have shift : lead + 1 - (c :: fraction).length = lead - fraction.length := by
      rw [List.length_cons]
      omega
    rw [shift]
    exact reads_exponent c fraction all lead
  case isFalse =>
    split
    case isTrue low => exact reads_behindZeros ne all _ (by omega)
    case isFalse high =>
      have shift : lead + 1 - digits.length = (lead.toNat + 1 : ℕ) - digits.length := by omega
      have pos : 0 < lead.toNat + 1 := Nat.succ_pos _
      rw [shift]
      generalize lead.toNat + 1 = places at pos
      dsimp only
      by_cases short : digits.length ≤ places
      · rw [List.drop_of_length_le short, List.take_of_length_le short, ← Int.ofNat_sub short]
        exact reads_beforeZeros ne all _
      · have lt : places < digits.length := Nat.lt_of_not_le short
        have behind : (digits.drop places).isEmpty = false := by simpa using lt
        rw [Nat.sub_eq_zero_of_le (Nat.le_of_lt lt), List.replicate_zero, List.append_nil, behind]
        exact reads_within all pos lt

/-- What is written for a decimal reads as its value. -/
theorem reads_toText (d : Decimal) : Reads d.toText d.value := by
  rw [toText]
  split
  case isTrue zero =>
    have reads := reads_fraction (n := -1) ['0'] ['0'] (by simp) (by simp) (zero_isDigit 2) rfl
    have zeros : Nat.ofDigitChars 10 (['0'] ++ ['0']) 0 = 0 := rfl
    exact reads.congr (by rw [value, value, zeros, zero, Nat.cast_zero, zero_mul, zero_mul])
  case isFalse ne =>
    obtain ⟨k, split⟩ := Text.exists_append_replicate '0' (Text.ofNat d.digits)
    dsimp only
    generalize (Text.ofNat d.digits).dropTrailing '0' = digits at split
    have all : ∀ c ∈ digits, c.isDigit := fun c mem =>
      Text.isDigit_of_mem_ofNat (split ▸ List.mem_append_left _ mem)
    -- The zeros that are left out move the point.
    have counted : d.digits = 10 ^ k * Nat.ofDigitChars 10 digits 0 := by
      rw [← Nat.ofDigitChars_replicate_zero, ← Nat.ofDigitChars_append, ← split]
      exact Nat.ofDigitChars_ten_toDigits.symm
    have some : digits ≠ [] := by
      rintro rfl
      exact ne counted
    have reads := reads_layout some all (d.exponent + (Text.ofNat d.digits).length - 1)
    refine reads.congr ?_
    calc _ = (mk (Nat.ofDigitChars 10 digits 0) (d.exponent + k)).value := by
          rw [split, List.length_append, List.length_replicate]
          congr 2
          omega
      _ = d.value := by rw [← value_mul_pow, ← counted]

lemma Reads.exists_cons (reads : Reads t x) : ∃ c rest, t = c :: rest ∧ c.isDigit := by
  cases reads with
  | plain numeral => exact numeral.exists_cons
  | exponent n numeral =>
    obtain ⟨c, rest, rfl, digit⟩ := numeral.exists_cons
    exact ⟨c, _, rfl, digit⟩

lemma Reads.mem {c : Char} (reads : Reads t x) (mem : c ∈ t) :
    c.isDigit ∨ c ∈ ['.', 'e', '-'] := by
  cases reads with
  | plain numeral => exact (numeral.mem mem).imp_right fun eq => by rw [eq]; decide
  | exponent n numeral =>
    obtain mem | mem := List.mem_append.mp mem
    · exact (numeral.mem mem).imp_right fun eq => by rw [eq]; decide
    · obtain rfl | mem := List.mem_cons.mp mem
      · exact .inr (by decide)
      · exact (Text.mem_ofInt mem).imp_right fun eq => by rw [eq]; decide

/-- A text reads as one value. -/
theorem Reads.unique (reads : Reads t x) (reads' : Reads t y) : x = y := by
  generalize eq : t = u at reads'
  cases reads with
  | plain numeral found =>
    cases reads' with
    | plain _ found' =>
      rw [eq, found'] at found
      cases found
      rfl
    | exponent n' numeral' =>
      rw [← List.append_nil t] at eq
      cases (Text.front_unique numeral.ne_e numeral'.ne_e (by simp) (by simp) eq).2
  | exponent n numeral found =>
    cases reads' with
    | plain numeral' =>
      rw [← List.append_nil u] at eq
      cases (Text.front_unique numeral.ne_e numeral'.ne_e (by simp) (by simp) eq).2
    | exponent n' numeral' found' =>
      obtain ⟨rfl, tail⟩ := Text.front_unique numeral.ne_e numeral'.ne_e (by simp) (by simp) eq
      rw [found'] at found
      cases found
      rw [Text.eq_of_ofInt_eq (List.cons.inj tail).2]

lemma value_eq_of_toText_eq (eq : d.toText = d'.toText) : d.value = d'.value := by
  have reads := reads_toText d
  rw [eq] at reads
  exact reads.unique (reads_toText d')

lemma toText_ne_cons {c : Char} (no : c.isDigit = false) : d.toText ≠ c :: t := by
  intro eq
  obtain ⟨c', rest, eq', digit⟩ := (reads_toText d).exists_cons
  cases eq.symm.trans eq'
  rw [no] at digit
  cases digit

end Decimal

namespace Binary64

variable {x y : Binary64} {m n : Nat}

/-- What is written for a magnitude, up to the infinity. -/
def magnitudeText (m : Nat) : Text :=
  if m = infinityMagnitude then "inf".toList else (Decimal.shortest m).toText

lemma toText_eq (number : x.isNaN = false) :
    x.toText = (if x.isNegative then ['-'] else []) ++ magnitudeText x.magnitude := by
  rw [toText, if_neg (by rw [number]; decide), magnitudeText]
  by_cases inf : x.magnitude = infinityMagnitude
  · rw [if_pos inf, if_pos inf]
  · rw [if_neg inf, if_neg inf]

lemma magnitude_le (number : x.isNaN = false) : x.magnitude ≤ infinityMagnitude :=
  Nat.le_of_not_lt (of_decide_eq_false number)

/-- A magnitude up to the infinity does not reach into the sign. -/
lemma toNat_bits_ofMagnitude (le : m ≤ infinityMagnitude) : (ofMagnitude m).bits.toNat = m := by
  have lt : infinityMagnitude < 2 ^ 64 := by decide
  exact (UInt64.toNat_ofNat' ..).trans (Nat.mod_eq_of_lt (Nat.lt_of_le_of_lt le lt))

lemma magnitude_ofMagnitude (le : m ≤ infinityMagnitude) : (ofMagnitude m).magnitude = m := by
  have lt : infinityMagnitude < signWeight := by decide
  rw [magnitude, toNat_bits_ofMagnitude le]
  exact Nat.mod_eq_of_lt (Nat.lt_of_le_of_lt le lt)

lemma isNegative_ofMagnitude (le : m ≤ infinityMagnitude) :
    (ofMagnitude m).isNegative = false := by
  have lt : infinityMagnitude < signWeight := by decide
  rw [isNegative, toNat_bits_ofMagnitude le]
  exact decide_eq_false (Nat.not_le_of_lt (Nat.lt_of_le_of_lt le lt))

lemma toText_ofMagnitude (finite : m < infinityMagnitude) :
    (ofMagnitude m).toText = (Decimal.shortest m).toText := by
  have le := Nat.le_of_lt finite
  have number : (ofMagnitude m).isNaN = false := by
    rw [isNaN, magnitude_ofMagnitude le]
    exact decide_eq_false (Nat.not_lt_of_le le)
  rw [toText_eq number, isNegative_ofMagnitude le, magnitude_ofMagnitude le, magnitudeText,
    if_neg (Nat.ne_of_lt finite), if_neg Bool.false_ne_true, List.nil_append]

lemma eq_of_magnitudeText_eq (le : m ≤ infinityMagnitude) (le' : n ≤ infinityMagnitude)
    (eq : magnitudeText m = magnitudeText n) : m = n := by
  rw [magnitudeText, magnitudeText] at eq
  split at eq
  case isTrue inf =>
    split at eq
    case isTrue inf' => rw [inf, inf']
    case isFalse => exact absurd eq.symm (Decimal.toText_ne_cons rfl)
  case isFalse finite =>
    split at eq
    case isTrue => exact absurd eq (Decimal.toText_ne_cons rfl)
    case isFalse finite' =>
      have value := Decimal.value_eq_of_toText_eq eq
      calc m = (Decimal.shortest m).magnitude :=
            (Decimal.magnitude_shortest (Nat.lt_of_le_of_ne le finite)).symm
        _ = (Decimal.shortest n).magnitude := Decimal.magnitude_eq_of_value_eq value
        _ = n := Decimal.magnitude_shortest (Nat.lt_of_le_of_ne le' finite')

lemma exists_cons_magnitudeText (m : Nat) :
    ∃ c t, magnitudeText m = c :: t ∧ (c.isDigit ∨ c = 'i') := by
  rw [magnitudeText]
  split
  case isTrue => exact ⟨'i', _, rfl, .inr rfl⟩
  case isFalse =>
    obtain ⟨c, t, eq, digit⟩ := (Decimal.reads_toText (Decimal.shortest m)).exists_cons
    exact ⟨c, t, eq, .inl digit⟩

lemma magnitudeText_ne_minus_cons (m : Nat) (t : Text) : magnitudeText m ≠ '-' :: t := by
  intro eq
  obtain ⟨c, rest, eq', start⟩ := exists_cons_magnitudeText m
  cases eq.symm.trans eq'
  exact absurd start (by decide)

lemma toNat_bits (x : Binary64) :
    x.bits.toNat = (if x.isNegative then signWeight else 0) + x.magnitude := by
  have lt : x.bits.toNat < 2 * signWeight := x.bits.toNat_lt
  rw [isNegative, magnitude]
  split
  case isTrue neg =>
    have le : signWeight ≤ x.bits.toNat := of_decide_eq_true neg
    rw [Nat.mod_eq_sub_mod le, Nat.mod_eq_of_lt (by omega)]
    omega
  case isFalse pos =>
    have lt : x.bits.toNat < signWeight := Nat.lt_of_not_le fun le => pos (decide_eq_true le)
    rw [Nat.mod_eq_of_lt lt, Nat.zero_add]

lemma eq_of_magnitude_eq (sign : x.isNegative = y.isNegative) (eq : x.magnitude = y.magnitude) :
    x = y := by
  have bits : x.bits.toNat = y.bits.toNat := by rw [toNat_bits, toNat_bits, sign, eq]
  exact congrArg mk (UInt64.toNat_inj.mp bits)

/-- A number is told by its text. -/
theorem eq_of_toText_eq (number : x.isNaN = false) (number' : y.isNaN = false)
    (eq : x.toText = y.toText) : x = y := by
  rw [toText_eq number, toText_eq number'] at eq
  have same (eq : magnitudeText x.magnitude = magnitudeText y.magnitude) :
      x.magnitude = y.magnitude :=
    eq_of_magnitudeText_eq (magnitude_le number) (magnitude_le number') eq
  cases sign : x.isNegative with
  | true =>
    cases sign' : y.isNegative with
    | true =>
      rw [sign, sign'] at eq
      exact eq_of_magnitude_eq (sign.trans sign'.symm) (same (List.cons.inj eq).2)
    | false =>
      rw [sign, sign'] at eq
      exact absurd eq.symm (magnitudeText_ne_minus_cons _ _)
  | false =>
    cases sign' : y.isNegative with
    | true =>
      rw [sign, sign'] at eq
      exact absurd eq (magnitudeText_ne_minus_cons _ _)
    | false =>
      rw [sign, sign'] at eq
      exact eq_of_magnitude_eq (sign.trans sign'.symm) (same eq)

lemma exists_cons_toText (number : x.isNaN = false) :
    ∃ c t, x.toText = c :: t ∧ (c.isDigit ∨ c ∈ ['i', '-']) := by
  rw [toText_eq number]
  cases x.isNegative with
  | true => exact ⟨'-', _, rfl, .inr (by decide)⟩
  | false =>
    obtain ⟨c, t, eq, start⟩ := exists_cons_magnitudeText x.magnitude
    exact ⟨c, t, eq, start.imp_right fun e => by rw [e]; decide⟩

/-- Nothing that parts or encloses other texts is in the text of a number. -/
lemma mem_toText {c : Char} (number : x.isNaN = false) (mem : c ∈ x.toText) :
    c.isDigit ∨ c ∈ ['.', 'e', '-', 'i', 'n', 'f'] := by
  rw [toText_eq number] at mem
  obtain mem | mem := List.mem_append.mp mem
  · split at mem
    case isTrue => exact .inr (by rw [List.mem_singleton.mp mem]; decide)
    case isFalse => cases mem
  · rw [magnitudeText] at mem
    split at mem
    case isTrue =>
      have sub : ∀ c ∈ "inf".toList, c ∈ ['.', 'e', '-', 'i', 'n', 'f'] := Text.forall_of_all rfl
      exact .inr (sub c mem)
    case isFalse =>
      have sub : ∀ c ∈ ['.', 'e', '-'], c ∈ ['.', 'e', '-', 'i', 'n', 'f'] := Text.forall_of_all rfl
      exact ((Decimal.reads_toText _).mem mem).imp_right (sub c)

end Binary64

end Lox
