import ExprCalculus.Decimal.Basic
import ExprCalculus.Text.Caseless

/-!
# Numerals

A numeral is an optional sign, digits with an optional point among or around them, and an optional
exponent: `3`, `-2.50`, `.5e-3`. At least one digit stands outside the exponent. Infinity and NaN go by
name, in any mixture of cases.

A numeral is always read as a whole: a reader answers only if it has used up all its characters.
-/

namespace ExprCalculus.Decimal

def isDigit (c : Char) : Bool := '0' ≤ c && c ≤ '9'

def ofDigits (digits : List Char) : Nat :=
  digits.foldl (fun n c => 10 * n + (c.toNat - '0'.toNat)) 0

/-- Whether a minus sign stands in front, and the text after the sign, if there is one. -/
def splitSign : List Char → Bool × List Char
  | '-' :: rest => (true, rest)
  | '+' :: rest => (false, rest)
  | text => (false, text)

/-- A whole number with an optional sign, the whole text. -/
def readInteger? (text : List Char) : Option Int :=
  let (minus, digits) := splitSign text
  if digits.isEmpty || !digits.all isDigit then none
  else some (if minus then -(ofDigits digits) else ofDigits digits)

/-- What may stand after the digits: nothing, or `e` and a whole number. -/
def readExponent? : List Char → Option Int
  | [] => some 0
  | c :: rest => if c == 'e' || c == 'E' then readInteger? rest else none

/-- The digits after the point and what follows them; without a point there are none. -/
def splitFraction : List Char → List Char × List Char
  | '.' :: rest => (rest.takeWhile isDigit, rest.dropWhile isDigit)
  | text => ([], text)

def readUnsigned? (text : List Char) : Option Decimal :=
  let whole := text.takeWhile isDigit
  let (fraction, rest) := splitFraction (text.dropWhile isDigit)
  if whole.isEmpty && fraction.isEmpty then none
  else (readExponent? rest).map fun e => ⟨ofDigits (whole ++ fraction), e - fraction.length⟩

def withSign (minus : Bool) (x : Float) : Float := if minus then -x else x

def readDecimal? (text : List Char) : Option Float :=
  let (minus, rest) := splitSign text
  (readUnsigned? rest).map fun d => withSign minus d.toFloat

def readName? (text : List Char) : Option Float :=
  let name := String.ofList text
  if Text.sameCaseless name "nan" then some (Float.ofBits 0x7ff8000000000000)
  else if Text.sameCaseless name "inf" || Text.sameCaseless name "infinity" then some infinity
  else none

/-- A numeral of digits, or a named value without a sign. -/
def readToken? (text : List Char) : Option Float :=
  readDecimal? text <|> readName? text

/-- A numeral of digits, or a named value with an optional sign. -/
def readSetting? (text : List Char) : Option Float :=
  let (minus, rest) := splitSign text
  readDecimal? text <|> (readName? rest).map (withSign minus)

end ExprCalculus.Decimal
