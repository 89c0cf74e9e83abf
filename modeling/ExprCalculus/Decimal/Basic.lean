/-!
# Decimals

A decimal is `coefficient · 10 ^ exponent`. `Decimal.positional` writes it without an exponent,
`Decimal.toFloat` gives the nearest binary64 number.
-/

namespace ExprCalculus

/-- The number `coefficient · 10 ^ exponent`. -/
structure Decimal where
  coefficient : Nat
  exponent : Int
  deriving DecidableEq

namespace Decimal

def digitCount (n : Nat) : Nat := (Nat.toDigits 10 n).length

/-! ### Positional notation -/

/-- Digits with a point before the last `places` of them and at least one digit before the point. -/
def withPoint (places : Nat) (digits : List Char) : List Char :=
  let padded := List.replicate (places + 1 - digits.length) '0' ++ digits
  padded.take (padded.length - places) ++ '.' :: padded.drop (padded.length - places)

/-- The digits of a decimal, with zeros or a point where the exponent asks for them. -/
def positional (d : Decimal) : List Char :=
  let digits := Nat.toDigits 10 d.coefficient
  if 0 ≤ d.exponent then digits ++ List.replicate d.exponent.toNat '0'
  else withPoint d.exponent.natAbs digits

/-! ### The nearest binary64 number -/

def infinity : Float := Float.ofBits 0x7ff0000000000000

/-- The binary64 number nearest to the decimal, a tie going to the even one. Decimals from `10 ^ 400`
on are beyond the largest number and those below `10 ^ -400` nearer to zero than to any other, so
neither needs its power of ten. -/
def toFloat (d : Decimal) : Float :=
  let lead := d.exponent + digitCount d.coefficient
  if d.coefficient = 0 ∨ lead < -400 then 0
  else if 400 < lead then infinity
  else Float.ofScientific d.coefficient (d.exponent < 0) d.exponent.natAbs

end Decimal
end ExprCalculus
