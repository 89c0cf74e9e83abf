import ExprCalculus.Expr.Edit
import ExprCalculus.Expr.Meaning

/-!
# Structural checks

An operator needs as many children as it has operands, and numbers and variables have none. Symbols that mean
nothing are let through: whoever needs a value for them reports them. The first defect in pre-order counts.
-/

namespace ExprCalculus

variable {ν : Type}

/-- Whether two children are just the operands of an operator: a unary one has its operand on the left. -/
def Operator.fits (op : Operator) (l r : Expr ν) : Bool :=
  match op.arity with
  | .unary => !l.isEmpty && r.isEmpty
  | .binary => !l.isEmpty && !r.isEmpty

theorem Operator.fits_unary {op : Operator} (h : op.arity = .unary) {l r : Expr ν} :
    op.fits l r = true ↔ l.isEmpty = false ∧ r = .empty := by
  simp [fits, h, Expr.isEmpty_iff]

theorem Operator.fits_binary {op : Operator} (h : op.arity = .binary) {l r : Expr ν} :
    op.fits l r = true ↔ l.isEmpty = false ∧ r.isEmpty = false := by
  simp [fits, h]

/-- Every operator has a left operand. -/
theorem Operator.isEmpty_left_of_fits {op : Operator} {l r : Expr ν} (h : op.fits l r = true) :
    l.isEmpty = false := by
  cases harity : op.arity with
  | unary => exact ((fits_unary harity).1 h).1
  | binary => exact ((fits_binary harity).1 h).1

namespace Expr

def validateOperands (e : Expr ν) (op : Operator) : Except (ExprFault ν) Unit :=
  if op.fits e.left e.right then .ok () else .error (.arityMismatch op e.degree)

/-- The defect of the root itself, if it has one. -/
def validateRoot (ops : OperatorSet) (bindings : Bindings ν) : Expr ν → Except (ExprFault ν) Unit
  | empty => .ok ()
  | e@(node a _ _) =>
    match ops.meaning bindings a with
    | .operator op => e.validateOperands op
    | .number _ | .variable _ =>
      if e.isLeaf then .ok () else .error (.leafWithChildren a e.degree)
    | .unresolved _ => .ok ()

def validate (ops : OperatorSet) (bindings : Bindings ν) :
    Expr ν → Except (ExprFault ν) Unit
  | empty => .ok ()
  | e@(node _ l r) => do
    e.validateRoot ops bindings
    l.validate ops bindings
    r.validate ops bindings

def check (ops : OperatorSet) (bindings : Bindings ν) (e : Expr ν) : Except (ExprFault ν) Unit := do
  let e ← e.nonempty
  e.validate ops bindings

/-- The first operator in use, in pre-order, whose children are not its operands. Nothing is asked of
other atoms. -/
def validateOperators (ops : OperatorSet) : Expr ν → Except (ExprFault ν) Unit
  | empty => .ok ()
  | e@(node a l r) => do
    match ops.operator? a with
    | some op => e.validateOperands op
    | none => pure ()
    l.validateOperators ops
    r.validateOperators ops

end Expr
end ExprCalculus
