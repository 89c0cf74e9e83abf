import ExprCalculus.Decimal.Shortest

/-!
# The text of a binary64 number

A number is written by its shortest decimal in positional notation, with a minus sign if its sign bit is
set, zero included. The values that are no numbers have names of their own.
-/

namespace ExprCalculus.Decimal

def hasMinus (x : Float) : Bool := Nat.pow 2 63 ≤ x.toBits.toNat

/-- The text of the magnitude of a number that is not NaN. -/
def magnitudeText (x : Float) : List Char :=
  if x.isInf then "inf".toList
  else if x == 0 then ['0']
  else (Magnitude.ofBits x.toBits).interval.shortest.positional

def floatText (x : Float) : String :=
  if x.isNaN then "NaN"
  else String.ofList ((if hasMinus x then ['-'] else []) ++ magnitudeText x)

end ExprCalculus.Decimal
