import ExprCalculus.Number.Basic
import ExprCalculus.Decimal.FloatText
import ExprCalculus.Decimal.Numeral

/-!
# Binary64 numbers in expressions

The numbers of a session are the binary64 ones, with their own arithmetic and comparison. Power, sine and
cosine are not part of that arithmetic: they come from a library, which is a parameter here.
-/

namespace ExprCalculus

/-- The functions that binary64 arithmetic itself does not have. -/
structure MathLibrary where
  pow : Float → Float → Float
  sin : Float → Float
  cos : Float → Float

namespace MathLibrary

/-- The library that a session runs with. -/
def system : MathLibrary := ⟨Float.pow, Float.sin, Float.cos⟩

/-- Binary64 arithmetic completed by the library. -/
@[reducible] def arithmetic (lib : MathLibrary) : Arithmetic Float where
  zero := 0
  one := 1
  negOne := -1
  pow := lib.pow
  sin := lib.sin
  cos := lib.cos

end MathLibrary

instance : Arithmetic Float := MathLibrary.system.arithmetic

/-- The binary64 numbers of a session that runs with the given library. -/
def Binary64 (_ : MathLibrary) : Type := Float

instance (lib : MathLibrary) : Arithmetic (Binary64 lib) := lib.arithmetic

instance : Numeral Float where
  read? := Decimal.readToken?
  write := Decimal.floatText
  isNegative x := x < 0

instance (lib : MathLibrary) : Numeral (Binary64 lib) := inferInstanceAs (Numeral Float)

end ExprCalculus
