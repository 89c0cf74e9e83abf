import ExprCalculus.Expr.Edit
import ExprCalculus.Simplify.Pass

/-!
# Passes in place

A pass works on the tree itself. It goes from the leaves to the root and rewrites a node as soon as its
children are done. At every operator it looks at the operands once more, and stops with a fault if one of them is
not there: the tree then stays as far rewritten as the pass had come.
-/

namespace ExprCalculus

variable {ν : Type}

/-- The tree that work in place leaves, and the number of its steps or the fault that stopped it. -/
structure Rewritten (ν : Type) where
  tree : Expr ν
  outcome : Except (ExprFault ν) Nat

namespace Rewritten

def unchanged (e : Expr ν) : Rewritten ν := ⟨e, .ok 0⟩

def done (s : Simplified ν) : Rewritten ν := ⟨s.tree, .ok s.steps⟩

def stopped (e : Expr ν) (fault : ExprFault ν) : Rewritten ν := ⟨e, .error fault⟩

/-- Goes on with the tree unless a fault has stopped the work. The steps add up. -/
def andThen (s : Rewritten ν) (next : Expr ν → Rewritten ν) : Rewritten ν :=
  match s.outcome with
  | .ok steps => ⟨(next s.tree).tree, (next s.tree).outcome.map (steps + ·)⟩
  | .error _ => s

/-- Work on a child, seen from the tree around it. -/
def within (s : Rewritten ν) (around : Expr ν → Expr ν) : Rewritten ν := ⟨around s.tree, s.outcome⟩

def result (s : Rewritten ν) : Except (ExprFault ν) (Simplified ν) :=
  s.outcome.map fun steps => ⟨s.tree, steps⟩

end Rewritten

/-- What takes the place of an operator: its operand on one side, or a number. -/
inductive Replacement (ν : Type) where
  | operand (side : Side)
  | number (value : ν)

variable [Arithmetic ν]

namespace Operator

/-- The value of an operator of which all operands are numbers. -/
def value? (op : Operator) (x y : Option ν) : Option ν :=
  match op.arity, x, y with
  | .unary, some x, _ => some (op.apply x Arithmetic.zero)
  | .binary, some x, some y => some (op.apply x y)
  | _, _, _ => none

/-- What the first identity that fits puts in place of an operator. All that it knows of an operand is its number,
if it is one. -/
def replacement? (op : Operator) (x y : Option ν) : Option (Replacement ν) :=
  let isZero (operand : Option ν) : Bool := operand.any (· == Arithmetic.zero)
  let isOne (operand : Option ν) : Bool := operand.any (· == Arithmetic.one)
  match op with
  | addition =>
    if isZero y then some (.operand .left)
    else if isZero x then some (.operand .right)
    else none
  | subtraction => if isZero y then some (.operand .left) else none
  | multiplication =>
    if isOne y then some (.operand .left)
    else if isOne x then some (.operand .right)
    else if isZero y || isZero x then some (.number Arithmetic.zero)
    else none
  | division =>
    if isOne y then some (.operand .left)
    else if isZero x then some (.number Arithmetic.zero)
    else none
  | power =>
    if isZero y then some (.number Arithmetic.one)
    else if isOne y then some (.operand .left)
    else if isOne x then some (.number Arithmetic.one)
    else if isZero x then some (.number Arithmetic.zero)
    else none
  | sine | cosine => none

end Operator

namespace Expr

omit [Arithmetic ν] in
/-- The numbers of the operands, so far as they are literals. -/
def literalOperands (op : Operator) (e : Expr ν) : Except (ExprFault ν) (Option ν × Option ν) := do
  e.validateOperands op
  let l ← e.operand .left op.symbol
  match op.arity with
  | .unary => return (l.literal?, none)
  | .binary =>
    let r ← e.operand .right op.symbol
    return (l.literal?, r.literal?)

/-- The operand that is to stand in the operator's own place. -/
def takeOperand (op : Operator) (side : Side) (e : Expr ν) : Except (ExprFault ν) (Expr ν) :=
  if (e.child side).isEmpty then .error (.operandLost op side) else .ok (e.child side)

/-- What a pass puts in place of a tree whose root is this operator. -/
def replaceRoot? (p : Pass) (op : Operator) (e : Expr ν) : Except (ExprFault ν) (Option (Expr ν)) := do
  let (x, y) ← e.literalOperands op
  match p with
  | .fold => return (op.value? x y).map number
  | .identities =>
    match op.replacement? x y with
    | none => return none
    | some (.number v) => return some (number v)
    | some (.operand side) => return some (← e.takeOperand op side)

/-- A pass at the root alone. -/
def rewriteRoot (ops : OperatorSet) (p : Pass) (e : Expr ν) : Rewritten ν :=
  match e.atom?.bind ops.operator? with
  | none => .unchanged e
  | some op =>
    match e.replaceRoot? p op with
    | .ok (some e') => .done ⟨e', 1⟩
    | .ok none => .unchanged e
    | .error fault => .stopped e fault

def sweepInPlace (ops : OperatorSet) (p : Pass) : Expr ν → Rewritten ν
  | empty => .unchanged empty
  | node a l r =>
    let left := l.sweepInPlace ops p
    let right := r.sweepInPlace ops p
    ((left.within fun l' => node a l' r).andThen fun _ => right.within (node a left.tree)).andThen
      (rewriteRoot ops p)

def passesInPlace (ops : OperatorSet) : List Pass → Expr ν → Rewritten ν
  | [], e => .unchanged e
  | p :: passes, e => (e.sweepInPlace ops p).andThen (passesInPlace ops passes)

end Expr
end ExprCalculus
