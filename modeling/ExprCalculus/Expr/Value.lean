import ExprCalculus.Expr.Structure

/-!
# The value of an expression

A tree is checked as a whole and then evaluated from its leaves, left operands first. Division by zero and
the like are left to the numbers.
-/

namespace ExprCalculus.Expr

variable {ν : Type} [Arithmetic ν]

/-- The value of a tree whose structure is sound. A unary operator is applied to zero as its second
argument, which it ignores. -/
def compute (ops : OperatorSet) (bindings : Bindings ν) : Expr ν → Except (ExprFault ν) ν
  | empty => .error .emptyTree
  | e@(node a l r) =>
    match ops.meaning bindings a with
    | .number v | .variable v => .ok v
    | .operator op => do
      let _ ← e.operand .left op.symbol
      let x ← l.compute ops bindings
      match op.arity with
      | .unary => return op.apply x Arithmetic.zero
      | .binary =>
        let _ ← e.operand .right op.symbol
        let y ← r.compute ops bindings
        return op.apply x y
    | .unresolved name => .error (.unresolved name)

/-- Checks the structure of a tree, which must not be empty, and gives its value. -/
def evaluate (ops : OperatorSet) (bindings : Bindings ν) (e : Expr ν) : Except (ExprFault ν) ν := do
  e.check ops bindings
  e.compute ops bindings

end ExprCalculus.Expr
