import ExprCalculus.Operator
import ExprCalculus.Dictionary
import ExprCalculus.Expr.Basic

/-!
# The meaning of atoms

A number means itself. A symbol is an operator if that operator is in use, otherwise a variable if it is bound;
a binding of an operator's symbol has no effect.
-/

namespace ExprCalculus

variable {ν : Type}

/-- What an atom stands for. -/
inductive Meaning (ν : Type) where
  | number (value : ν)
  | operator (op : Operator)
  | variable (value : ν)
  | unresolved (name : String)
  deriving DecidableEq

def OperatorSet.operator? (ops : OperatorSet) : Atom ν → Option Operator
  | .number _ => none
  | .symbol name => ops.find? name

/-- What an atom stands for under operators and bindings. -/
def OperatorSet.meaning (ops : OperatorSet) (bindings : Bindings ν) : Atom ν → Meaning ν
  | .number v => .number v
  | .symbol name =>
    match ops.find? name with
    | some op => .operator op
    | none =>
      match bindings.get? name with
      | some v => .variable v
      | none => .unresolved name

end ExprCalculus
