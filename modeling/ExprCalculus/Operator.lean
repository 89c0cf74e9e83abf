import ExprCalculus.Number.Basic

/-!
# Operators

The seven operators, their symbols, arities and meaning on numbers, and sets of the operators that are in
use. `OperatorSet.find?_eq_some_iff` says what looking up a symbol finds.
-/

namespace ExprCalculus

inductive Arity where
  | unary
  | binary
  deriving DecidableEq

namespace Arity

def operands : Arity → Nat
  | unary => 1
  | binary => 2

def title : Arity → String
  | unary => "Unary"
  | binary => "Binary"

end Arity

/-- The operators that have a value, a derivative and rules of simplification. -/
inductive Operator where
  | addition
  | subtraction
  | multiplication
  | division
  | power
  | sine
  | cosine
  deriving DecidableEq

namespace Operator

def all : List Operator := [addition, subtraction, multiplication, division, power, sine, cosine]

theorem mem_all (op : Operator) : op ∈ all := by cases op <;> decide

def title : Operator → String
  | addition => "Addition"
  | subtraction => "Subtraction"
  | multiplication => "Multiplication"
  | division => "Division"
  | power => "Power"
  | sine => "Sine"
  | cosine => "Cosine"

def symbol : Operator → String
  | addition => "+"
  | subtraction => "-"
  | multiplication => "*"
  | division => "/"
  | power => "^"
  | sine => "sin"
  | cosine => "cos"

theorem symbol_inj {a b : Operator} : a.symbol = b.symbol ↔ a = b := by
  cases a <;> cases b <;> decide

def arity : Operator → Arity
  | sine | cosine => .unary
  | _ => .binary

/-- The operator on numbers; a unary one ignores its second argument. -/
def apply {ν : Type} [Arithmetic ν] : Operator → ν → ν → ν
  | addition, a, b => a + b
  | subtraction, a, b => a - b
  | multiplication, a, b => a * b
  | division, a, b => a / b
  | power, a, b => Arithmetic.pow a b
  | sine, a, _ => Arithmetic.sin a
  | cosine, a, _ => Arithmetic.cos a

end Operator

/-- The operators in use. A symbol outside the set is no operator. -/
structure OperatorSet where
  contains : Operator → Bool

namespace OperatorSet

def full : OperatorSet := ⟨fun _ => true⟩

def ofList (ops : List Operator) : OperatorSet := ⟨fun op => ops.contains op⟩

/-- The operators in use, each once. -/
def toList (ops : OperatorSet) : List Operator := Operator.all.filter ops.contains

def size (ops : OperatorSet) : Nat := ops.toList.length

def isEmpty (ops : OperatorSet) : Bool := ops.toList.isEmpty

/-- The operator in use that the token stands for. -/
def find? (ops : OperatorSet) (token : String) : Option Operator :=
  ops.toList.find? fun op => op.symbol == token

theorem mem_toList {ops : OperatorSet} {op : Operator} : op ∈ ops.toList ↔ ops.contains op = true := by
  simp [toList, Operator.mem_all]

theorem find?_eq_some_iff {ops : OperatorSet} {token : String} {op : Operator} :
    ops.find? token = some op ↔ ops.contains op = true ∧ op.symbol = token := by
  constructor
  · intro h
    exact ⟨mem_toList.1 (List.mem_of_find?_eq_some h), by simpa using List.find?_some h⟩
  · rintro ⟨hop, rfl⟩
    cases hf : ops.find? op.symbol with
    | none => simpa using List.find?_eq_none.1 hf op (mem_toList.2 hop)
    | some op' =>
      have : op'.symbol = op.symbol := by simpa using List.find?_some hf
      rw [Operator.symbol_inj.1 this]

/-- An operator in use is found by its own symbol. -/
theorem find?_symbol {ops : OperatorSet} {op : Operator} (h : ops.contains op = true) :
    ops.find? op.symbol = some op :=
  find?_eq_some_iff.2 ⟨h, rfl⟩

end OperatorSet
end ExprCalculus
