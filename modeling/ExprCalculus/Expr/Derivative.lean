import ExprCalculus.Expr.Structure

/-!
# Derivatives

The derivative of a tree is a new tree, built by one rule per operator and not simplified:

    number         0
    variable       1 for the one differentiated by, 0 for all others
    a + b, a - b   da + db, da - db
    a * b          da * b + a * db
    a / b          (da * b - a * db) / (b * b)
    a ^ c          (c * a ^ (c - 1)) * da, only for a number c
    sin a          cos a * da
    cos a          (-1 * sin a) * da

A rule can build only with operators in use.
-/

namespace ExprCalculus

variable {ν : Type}

/-- The symbol of an operator, which must be in use. -/
def OperatorSet.requireSymbol (ops : OperatorSet) (op : Operator) : Except (ExprFault ν) String :=
  if ops.contains op then .ok op.symbol else .error (.operatorMissing op)

theorem OperatorSet.requireSymbol_eq_ok_iff {ops : OperatorSet} {op : Operator} {name : String} :
    (ops.requireSymbol op : Except (ExprFault ν) String) = .ok name ↔
      ops.contains op = true ∧ op.symbol = name := by
  unfold requireSymbol
  split <;> simp_all

/-- An operator in use with its operands; a unary one has an empty right operand. -/
def OperatorSet.build (ops : OperatorSet) (op : Operator) (l r : Expr ν) :
    Except (ExprFault ν) (Expr ν) := do
  let symbol ← ops.requireSymbol op
  return .node (.symbol symbol) l r

namespace Expr

variable [Arithmetic ν]

/-- The derivative of a tree by the variable `x`, for a tree whose structure is sound. -/
def derive (ops : OperatorSet) (bindings : Bindings ν) (x : String) :
    Expr ν → Except (ExprFault ν) (Expr ν)
  | empty => .error .emptyTree
  | e@(node a u v) =>
    match ops.meaning bindings a with
    | .number _ => return number Arithmetic.zero
    | .variable _ =>
      return number (if a.symbol? = some x then Arithmetic.one else Arithmetic.zero)
    | .unresolved name => .error (.unresolved name)
    | .operator op => do
      let _ ← e.operand .left op.symbol
      let du ← u.derive ops bindings x
      match op with
      | .addition | .subtraction =>
        let _ ← e.operand .right op.symbol
        let dv ← v.derive ops bindings x
        ops.build op du dv
      | .multiplication =>
        let _ ← e.operand .right op.symbol
        let dv ← v.derive ops bindings x
        let duTimesV ← ops.build .multiplication du v
        let uTimesDv ← ops.build .multiplication u dv
        ops.build .addition duTimesV uTimesDv
      | .division =>
        let _ ← e.operand .right op.symbol
        let dv ← v.derive ops bindings x
        let duTimesV ← ops.build .multiplication du v
        let uTimesDv ← ops.build .multiplication u dv
        let numerator ← ops.build .subtraction duTimesV uTimesDv
        let denominator ← ops.build .multiplication v v
        ops.build .division numerator denominator
      | .power =>
        let _ ← e.operand .right op.symbol
        match v.literal? with
        | none => throw (.exponentNotLiteral v)
        | some c =>
          let lowered ← ops.build .power u (number (c - Arithmetic.one))
          let scaled ← ops.build .multiplication (number c) lowered
          ops.build .multiplication scaled du
      | .sine =>
        let cosU ← ops.build .cosine u empty
        ops.build .multiplication cosU du
      | .cosine =>
        let sinU ← ops.build .sine u empty
        let minusSinU ← ops.build .multiplication (number Arithmetic.negOne) sinU
        ops.build .multiplication minusSinU du

/-- The derivative by a variable, which must be bound and no operator's symbol. The tree must not be empty, and
its structure is checked first. -/
def differentiate (ops : OperatorSet) (bindings : Bindings ν) (x : String) (e : Expr ν) :
    Except (ExprFault ν) (Expr ν) := do
  let e ← e.nonempty
  if (ops.find? x).isSome || !bindings.contains x then throw (.notBoundVariable x)
  e.validate ops bindings
  e.derive ops bindings x

end Expr
end ExprCalculus
