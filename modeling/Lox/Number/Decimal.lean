import Lox.Text
import Lox.Number.Binary64

/-!
# Decimals

Decimal fractions, the numerals that denote them, and the double-precision number nearest to one.
Every double has an exact decimal value, since a binary fraction is a decimal one.
-/

namespace Lox

/-- The number `digits * 10 ^ exponent`. -/
structure Decimal where
  digits : Nat
  exponent : Int
  deriving DecidableEq, Repr

namespace Decimal

/-- The decimal that a numeral denotes: digits, and after a point as many digits again as wanted. -/
def ofNumeral? (t : Text) : Option Decimal :=
  let whole := t.takeWhile Char.isDigit
  if whole.isEmpty then none
  else
    match t.dropWhile Char.isDigit with
    | [] => some ⟨Nat.ofDigitChars 10 whole 0, 0⟩
    | '.' :: fraction =>
      if fraction.isEmpty || !fraction.all Char.isDigit then none
      else some ⟨Nat.ofDigitChars 10 (whole ++ fraction) 0, -fraction.length⟩
    | _ => none

def magnitude (d : Decimal) : Nat :=
  Binary64.nearestMagnitude (d.digits * Nat.pow 10 d.exponent.toNat)
    (Nat.pow 10 (-d.exponent).toNat)

/-- The double nearest to a decimal. -/
def toBinary64 (d : Decimal) : Binary64 := .ofMagnitude d.magnitude

/-- The exact value of a finite magnitude. -/
def ofMagnitude (m : Nat) : Decimal := ⟨Binary64.units m * Nat.pow 5 1074, -1074⟩

/-- How many digits are written out for `digits`. -/
def size (d : Decimal) : Nat := (Text.ofNat d.digits).length

end Decimal

end Lox
