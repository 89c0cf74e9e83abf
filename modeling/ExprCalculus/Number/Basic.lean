/-!
# Numbers

What an expression asks of its numbers comes in two classes. `Arithmetic` holds the seven operations, the
three numbers that the rules themselves write down, and the test by which numbers compare. `Numeral`
holds the way numbers are written in a text. Everything on expressions is stated over these classes;
`ExprCalculus.Number.Binary64` gives the numbers that sessions use.
-/

namespace ExprCalculus

/-- Numbers that expressions can be computed with. The test `==` is numeric equality: it need not be
reflexive, and equal numbers need not be identical. -/
class Arithmetic (ν : Type) extends BEq ν, Add ν, Sub ν, Mul ν, Div ν where
  zero : ν
  one : ν
  negOne : ν
  pow : ν → ν → ν
  sin : ν → ν
  cos : ν → ν

class Numeral (ν : Type) where
  /-- The number that the whole token stands for, if it is a numeral. -/
  read? : List Char → Option ν
  write : ν → String
  /-- Whether a number is written in parentheses where it stands among operators. -/
  isNegative : ν → Bool

end ExprCalculus
