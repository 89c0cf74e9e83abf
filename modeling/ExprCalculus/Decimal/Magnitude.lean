/-!
# Binary64 magnitudes

The magnitude of a finite binary64 number is `mantissa · 2 ^ exponent`. All reals that round to it lie in
one interval, `Magnitude.interval`, whose ends are counted in quarters of the last place.
-/

namespace ExprCalculus

/-- The number `mantissa · 2 ^ exponent`. -/
structure Magnitude where
  mantissa : Nat
  exponent : Int
  deriving DecidableEq

/-- The reals that round to a number: `value`, `low` and `high` count units of `2 ^ exponent`, and
`closed` says whether both ends belong. -/
structure RoundingInterval where
  low : Nat
  value : Nat
  high : Nat
  exponent : Int
  closed : Bool

namespace Magnitude

def leastExponent : Int := -1074

/-- The mantissa of a power of two, the least with all 53 bits. -/
def leastNormal : Nat := Nat.pow 2 52

/-- The magnitude that a bit pattern of a finite number stands for; the sign bit is ignored. -/
def ofBits (bits : UInt64) : Magnitude :=
  let field : Nat := bits.toNat / Nat.pow 2 52 % Nat.pow 2 11
  let fraction := bits.toNat % Nat.pow 2 52
  if field = 0 then ⟨fraction, leastExponent⟩
  else ⟨leastNormal + fraction, (field : Int) - 1075⟩

/-- Half a unit of the last place on both sides, but a quarter below a power of two, where the numbers
lie twice as close. A tie goes to the even mantissa, so exactly then the ends belong. -/
def interval (m : Magnitude) : RoundingInterval :=
  let below := if m.mantissa = leastNormal ∧ leastExponent < m.exponent then 1 else 2
  { low := 4 * m.mantissa - below
    value := 4 * m.mantissa
    high := 4 * m.mantissa + 2
    exponent := m.exponent - 2
    closed := m.mantissa % 2 = 0 }

end Magnitude
end ExprCalculus
