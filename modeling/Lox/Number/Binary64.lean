/-!
# Double-precision numbers

A number is its 64 bits: a sign, eleven bits of exponent and fifty-two bits of fraction. The bits
without the sign, read as a natural number, are the magnitude. Magnitudes rise with the value they
stand for, so the finite ones are the numbers below `infinityMagnitude`, in order and without a gap.
Values are counted in units of the least positive number, which is two to the power of `-1074`.
-/

namespace Lox

/-- A double-precision number, given by its bits. -/
structure Binary64 where
  /-- The sign, the exponent and the fraction, from the highest bit down. -/
  bits : UInt64
  deriving DecidableEq, Repr

namespace Binary64

/-- How many numbers there are from one power of two up to the next. -/
def binade : Nat := 1 <<< 52

/-- The magnitude of the infinities: all exponent bits are set and no bit of the fraction. -/
def infinityMagnitude : Nat := 2047 * binade

/-- How many magnitudes there are, and what the sign bit counts. -/
def signWeight : Nat := 2048 * binade

/-- The bits without the sign. -/
def magnitude (x : Binary64) : Nat := x.bits.toNat % signWeight

/-- Whether the sign bit is set, which it also is for the negative zero. -/
def isNegative (x : Binary64) : Bool := signWeight ≤ x.bits.toNat

/-- The number without a sign that has the given magnitude. -/
def ofMagnitude (m : Nat) : Binary64 := ⟨m.toUInt64⟩

/-- Not a number: all exponent bits are set and some bit of the fraction. -/
def isNaN (x : Binary64) : Bool := infinityMagnitude < x.magnitude

/-- Equality of values: the two zeros agree, and what is not a number agrees with nothing. -/
def agrees (x y : Binary64) : Bool :=
  !x.isNaN && !y.isNaN && (x.bits == y.bits || (x.magnitude == 0 && y.magnitude == 0))

/-- The significand of a finite magnitude. In the lowest binade there is no leading one. -/
def significand (m : Nat) : Nat := if m < binade then m else binade + m % binade

/-- The value of a finite magnitude in units of the least positive number. -/
def units (m : Nat) : Nat := significand m <<< (m / binade - 1)

/-- The integer nearest to `num / den`; a half goes to the even neighbour. -/
def roundHalfEven (num den : Nat) : Nat :=
  if 2 * (num % den) < den ∨ 2 * (num % den) = den ∧ num / den % 2 = 0 then num / den
  else num / den + 1

/-- The magnitude nearest to `num / den`, where a half goes to the even neighbour. The quotient is
rounded to the 53 bits of a significand, of which the lowest falls `shift` bits above the unit. A
carry out of the significand moves into the exponent by itself, and what lies beyond the finite
numbers is infinite. -/
def nearestMagnitude (num den : Nat) : Nat :=
  let scaled := num <<< 1074
  let shift := (scaled / den).log2 - 52
  min (shift * binade + roundHalfEven scaled (den <<< shift)) infinityMagnitude

end Binary64

end Lox
