import Lox.Number.Decimal

/-!
# The text of a number

A number is written with the fewest digits that are read back as the same number. Of the decimals
with that many digits it is the one nearest to the exact value, and of two equally near the larger.
-/

namespace Lox

namespace Decimal

/--
The decimal nearest to the exact value of the magnitude `m` among those with at most `n` digits
that are read back as `m`. Only the two neighbours of the exact value can be it.
-/
def nearestReadingBack? (m n : Nat) : Option Decimal :=
  let exact := ofMagnitude m
  let cut := exact.size - n
  let place := Nat.pow 10 cut
  let low : Decimal := ⟨exact.digits / place, exact.exponent + cut⟩
  let high : Decimal := ⟨low.digits + 1, low.exponent⟩
  if low.magnitude = m then
    if high.magnitude = m ∧ place ≤ 2 * (exact.digits % place) then some high else some low
  else if high.magnitude = m then some high
  else none

/-- The shortest decimal that is read back as the magnitude `m`. The exact value always is. -/
def shortest (m : Nat) : Decimal :=
  ((List.range 17).findSome? fun n => nearestReadingBack? m (n + 1)).getD (ofMagnitude m)

/-- The exponent of the leading digit below which a number is written with an exponent. -/
def plainFrom : Int := -4

/-- The exponent of the leading digit from which on a number is written with an exponent. -/
def plainBelow : Int := 16

/--
Digits with a point, of a number whose leading digit has the exponent `lead`. In the plain form a
digit follows the point; with an exponent the point is left out where no digit follows it.
-/
def layout (digits : Text) (lead : Int) : Text :=
  if lead < plainFrom ∨ plainBelow ≤ lead then
    let fraction := digits.drop 1
    digits.take 1 ++ (if fraction.isEmpty then [] else '.' :: fraction) ++ 'e' :: Text.ofInt lead
  else if lead < 0 then
    '0' :: '.' :: List.replicate (-lead - 1).toNat '0' ++ digits
  else
    let places := lead.toNat + 1
    let fraction := digits.drop places
    digits.take places ++ List.replicate (places - digits.length) '0' ++
      '.' :: (if fraction.isEmpty then ['0'] else fraction)

/-- The text of a decimal, without zeros behind its last other digit. -/
def toText (d : Decimal) : Text :=
  if d.digits = 0 then "0.0".toList
  else
    let digits := Text.ofNat d.digits
    layout (digits.dropTrailing '0') (d.exponent + digits.length - 1)

end Decimal

/-- The text of a number. What is not a number has no sign. -/
def Binary64.toText (x : Binary64) : Text :=
  if x.isNaN then "NaN".toList
  else
    let sign := if x.isNegative then ['-'] else []
    if x.magnitude = infinityMagnitude then sign ++ "inf".toList
    else sign ++ (Decimal.shortest x.magnitude).toText

end Lox
