import ExprCalculus.Decimal.Basic
import ExprCalculus.Decimal.Magnitude

/-!
# Shortest decimals

Of all decimals that round to a given binary64 number, `RoundingInterval.shortest` gives one with the
fewest digits, and of those the nearest; of two equally near ones the greater. It tries the grids of
multiples of `10 ^ k` from the coarsest on. If any point of a grid lies in the interval, so does one
of the two neighbours of the value, so only these are tried.
-/

namespace ExprCalculus.RoundingInterval

/-- The powers that turn units of `10 ^ k` and of `2 ^ e` into whole numbers of one smaller unit. -/
def commonUnits (k e : Int) : Nat × Nat :=
  (Nat.pow 10 k.toNat * Nat.pow 2 (-e).toNat, Nat.pow 2 e.toNat * Nat.pow 10 (-k).toNat)

/-- Whether a number lies in the interval, all scaled by `unit`. -/
def holds (i : RoundingInterval) (unit x : Nat) : Bool :=
  if i.closed then i.low * unit ≤ x && x ≤ i.high * unit
  else i.low * unit < x && x < i.high * unit

/-- The multiple of `10 ^ k` that lies in the interval and is nearest to the value, if any does. -/
def gridPoint? (i : RoundingInterval) (k : Int) : Option Decimal :=
  let (step, unit) := commonUnits k i.exponent
  let value := i.value * unit
  let n := value / step
  let below := n * step
  let above := below + step
  match i.holds unit below, i.holds unit above with
  | true, true => some ⟨if value - below < above - value then n else n + 1, k⟩
  | true, false => some ⟨n, k⟩
  | false, true => some ⟨n + 1, k⟩
  | false, false => none

def leadingExponent (i : RoundingInterval) : Int :=
  let numerator := i.value * Nat.pow 2 i.exponent.toNat
  let denominator := Nat.pow 2 (-i.exponent).toNat
  if denominator ≤ numerator then Decimal.digitCount (numerator / denominator) - 1
  else -(Decimal.digitCount ((denominator - 1) / numerator))

/-- The shortest decimal in the interval. Seventeen digits tell all binary64 numbers apart, so the
grids down to the eighteenth digit are enough. -/
def shortest (i : RoundingInterval) : Decimal :=
  let top := i.leadingExponent + 1
  ((List.range 19).findSome? fun (n : Nat) => i.gridPoint? (top - n)).getD ⟨0, 0⟩

end ExprCalculus.RoundingInterval
