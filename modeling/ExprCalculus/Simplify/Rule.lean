import ExprCalculus.Expr.Structure
import ExprCalculus.Simplify.Sweep

/-!
# The rules of simplification

Constant folding replaces an operator whose operands are all literals by its value. Identity elimination
replaces an operator by one of its operands, or by 0 or 1, when an operand is the literal 0 or 1:

    a + 0, 0 + a, a - 0       a
    a * 1, 1 * a, a / 1       a
    a * 0, 0 * a, 0 / a       0
    a ^ 0, 1 ^ a              1
    a ^ 1                     a
    0 ^ a                     0

Where two of them fit, `Operator.identity?` settles which counts. Literals are compared as numbers, so that
the literal -0 is a 0 too. Only operators in use with all their operands are replaced.
-/

namespace ExprCalculus

variable {ν : Type} [Arithmetic ν]

namespace Expr

def isLiteral (v : ν) (e : Expr ν) : Bool :=
  match e.literal? with
  | some x => x == v
  | none => false

def isZero (e : Expr ν) : Bool := e.isLiteral Arithmetic.zero

def isOne (e : Expr ν) : Bool := e.isLiteral Arithmetic.one

end Expr

namespace Operator

/-- The value of an operator on literals, as a literal. -/
def constant? (op : Operator) (l r : Expr ν) : Option (Expr ν) :=
  match op.arity with
  | .unary => l.literal?.map fun x => .number (op.apply x Arithmetic.zero)
  | .binary =>
    match l.literal?, r.literal? with
    | some x, some y => some (.number (op.apply x y))
    | _, _ => none

/-- What an operator on these operands is by the first identity that fits. -/
def identity? (op : Operator) (l r : Expr ν) : Option (Expr ν) :=
  match op with
  | addition => if r.isZero then some l else if l.isZero then some r else none
  | subtraction => if r.isZero then some l else none
  | multiplication =>
    if r.isOne then some l
    else if l.isOne then some r
    else if r.isZero || l.isZero then some (.number Arithmetic.zero)
    else none
  | division =>
    if r.isOne then some l
    else if l.isZero then some (.number Arithmetic.zero)
    else none
  | power =>
    if r.isZero then some (.number Arithmetic.one)
    else if r.isOne then some l
    else if l.isOne then some (.number Arithmetic.one)
    else if l.isZero then some (.number Arithmetic.zero)
    else none
  | sine | cosine => none

theorem constant?_unary {op : Operator} (h : op.arity = .unary) {l r e : Expr ν} :
    op.constant? l r = some e ↔ ∃ x, l = .number x ∧ .number (op.apply x Arithmetic.zero) = e := by
  simp [constant?, h, Expr.literal?_eq_some_iff]

theorem constant?_binary {op : Operator} (h : op.arity = .binary) {l r e : Expr ν} :
    op.constant? l r = some e ↔
      ∃ x y, l = .number x ∧ r = .number y ∧ .number (op.apply x y) = e := by
  cases hl : l.literal? with
  | none =>
    have hne := Expr.literal?_eq_none_iff.1 hl
    simp [constant?, h, hl, hne]
  | some x =>
    cases hr : r.literal? with
    | none =>
      have hne := Expr.literal?_eq_none_iff.1 hr
      simp [constant?, h, hl, hr, hne]
    | some y =>
      rw [Expr.literal?_eq_some_iff] at hl hr
      subst hl hr
      simp [constant?, h, Expr.literal?, Expr.number, Expr.leaf]

theorem identity?_unary {op : Operator} (h : op.arity = .unary) {l r : Expr ν} :
    op.identity? l r = none := by
  cases op <;> simp_all [arity, identity?]

end Operator

/-- A rule for operators as a rule for the nodes that hold an operator in use with its operands. -/
def OperatorSet.ruleOf (ops : OperatorSet)
    (replace? : Operator → Expr ν → Expr ν → Option (Expr ν)) : NodeRule ν := fun a l r =>
  match ops.operator? a with
  | some op => if op.fits l r then replace? op l r else none
  | none => none

omit [Arithmetic ν] in
theorem OperatorSet.ruleOf_eq_some_iff {ops : OperatorSet}
    {replace? : Operator → Expr ν → Expr ν → Option (Expr ν)} {a : Atom ν} {l r e : Expr ν} :
    ops.ruleOf replace? a l r = some e ↔
      ∃ op, ops.operator? a = some op ∧ op.fits l r = true ∧ replace? op l r = some e := by
  cases h : ops.operator? a with
  | none => simp [OperatorSet.ruleOf, h]
  | some op => simp [OperatorSet.ruleOf, h]

omit [Arithmetic ν] in
theorem OperatorSet.ruleOf_of_operator {ops : OperatorSet}
    {replace? : Operator → Expr ν → Expr ν → Option (Expr ν)} {a : Atom ν} {op : Operator}
    (h : ops.operator? a = some op) (l r : Expr ν) :
    ops.ruleOf replace? a l r = if op.fits l r then replace? op l r else none := by
  simp [OperatorSet.ruleOf, h]

end ExprCalculus
