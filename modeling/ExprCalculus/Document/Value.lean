import ExprCalculus.Number.Binary64

/-!
# Values of task documents

A value is written as one token and typed by the way it looks: an integer if it can be one, else a number, else
a truth value, else a string.
-/

namespace ExprCalculus.Document

inductive Value where
  | string (text : String)
  | float (value : Float)
  | integer (value : Int)
  | boolean (value : Bool)

namespace Value

def string? : Value → Option String
  | string text => some text
  | _ => none

def float? : Value → Option Float
  | float x => some x
  | _ => none

def integer? : Value → Option Int
  | integer n => some n
  | _ => none

def boolean? : Value → Option Bool
  | boolean b => some b
  | _ => none

def number? : Value → Option Float
  | float x => some x
  | integer n => some (Float.ofInt n)
  | _ => none

/-- The value written out; a string stands for itself. -/
def text : Value → String
  | string text => text
  | float x => Decimal.floatText x
  | integer n => toString n
  | boolean b => if b then "true" else "false"

/-- Whether an integer fits into 64 bits with a sign. -/
def isWord (n : Int) : Bool := -(Int.pow 2 63) ≤ n && n < Int.pow 2 63

def readWord? (token : List Char) : Option Int := (Decimal.readInteger? token).filter isWord

def readBoolean? (token : List Char) : Option Bool :=
  if token == "true".toList then some true
  else if token == "false".toList then some false
  else none

def ofToken (token : List Char) : Value :=
  match readWord? token with
  | some n => integer n
  | none =>
    match Decimal.readSetting? token with
    | some x => float x
    | none =>
      match readBoolean? token with
      | some b => boolean b
      | none => string (String.ofList token)

end Value
end ExprCalculus.Document
