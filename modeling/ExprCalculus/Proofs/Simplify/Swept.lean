import ExprCalculus.Proofs.Expr.Evaluation
import ExprCalculus.Simplify.Optimization

/-!
# What a pass leaves of a tree

After a pass a node still stands over what the pass has made of its children, or one of these children or a number
stands in its place. So a property of single nodes, if numbers have it and kept nodes do not lose it, holds
everywhere after a pass: the first use is that operators go on having their operands.
-/

namespace ExprCalculus

variable {ν : Type}

/-! ### What one node becomes -/

/-- The tree that takes the place of an operator with these operands. -/
def Replacement.tree (l r : Expr ν) : Replacement ν → Expr ν
  | operand .left => l
  | operand .right => r
  | number v => .number v

variable [Arithmetic ν]

theorem Expr.isLiteral_eq_any (v : ν) (e : Expr ν) : e.isLiteral v = e.literal?.any (· == v) := by
  cases h : e.literal? <;> simp [isLiteral, h]

/-- The identities read off their operands no more than which literals these are. -/
theorem Operator.identity?_eq (op : Operator) (l r : Expr ν) :
    op.identity? l r = (op.replacement? l.literal? r.literal?).map (Replacement.tree l r) := by
  cases op <;> simp only [identity?, replacement?, Expr.isZero, Expr.isOne, Expr.isLiteral_eq_any] <;>
    (repeat' split) <;> rfl

theorem Operator.constant?_eq {op : Operator} {l r : Expr ν} :
    op.constant? l r = (op.value? l.literal? r.literal?).map Expr.number := by
  cases harity : op.arity with
  | unary => cases hl : l.literal? <;> simp [constant?, value?, harity, hl]
  | binary =>
    cases hl : l.literal? <;> cases hr : r.literal? <;> simp [constant?, value?, harity, hl, hr]

theorem Operator.arity_of_identity? {op : Operator} {l r e : Expr ν} (h : op.identity? l r = some e) :
    op.arity = .binary := by
  cases harity : op.arity with
  | binary => rfl
  | unary => simp [identity?_unary harity] at h

/-- A pass puts an operand in place of an operator, the right one only if it is binary, or a number. -/
theorem Pass.replace?_cases {p : Pass} {op : Operator} {l r e : Expr ν} (h : p.replace? op l r = some e) :
    e = l ∨ (op.arity = .binary ∧ e = r) ∨ ∃ c, e = .number c := by
  cases p with
  | fold =>
    rw [replace?, Operator.constant?_eq] at h
    obtain ⟨c, _, rfl⟩ := Option.map_eq_some_iff.1 h
    exact .inr (.inr ⟨c, rfl⟩)
  | identities =>
    have hbinary : op.arity = .binary := Operator.arity_of_identity? h
    rw [replace?, Operator.identity?_eq] at h
    obtain ⟨replacement, _, rfl⟩ := Option.map_eq_some_iff.1 h
    cases replacement with
    | operand side =>
      cases side with
      | left => exact .inl rfl
      | right => exact .inr (.inl ⟨hbinary, rfl⟩)
    | number c => exact .inr (.inr ⟨c, rfl⟩)

namespace Expr

variable {ops : OperatorSet} {p : Pass}

theorem isEmpty_of_replace? {op : Operator} {l r e : Expr ν} (hfits : op.fits l r = true)
    (h : p.replace? op l r = some e) : e.isEmpty = false := by
  rcases Pass.replace?_cases h with rfl | ⟨hbinary, rfl⟩ | ⟨c, rfl⟩
  · exact Operator.isEmpty_left_of_fits hfits
  · exact ((Operator.fits_binary hbinary).1 hfits).2
  · rfl

theorem tree_sweepPass_node {a : Atom ν} {l r : Expr ν} {p : Pass} :
    ((node a l r).sweepPass ops p).tree =
      (ops.ruleOf p.replace? a (l.sweepPass ops p).tree (r.sweepPass ops p).tree).getD
        (node a (l.sweepPass ops p).tree (r.sweepPass ops p).tree) := tree_sweep_node _ _ _ _

theorem tree_sweepPass_leaf {a : Atom ν} (h : ops.operator? a = none) (p : Pass) :
    ((leaf a).sweepPass ops p).tree = leaf a := by
  rw [leaf, tree_sweepPass_node]
  simp [OperatorSet.ruleOf, h, sweepPass, sweep, Simplified.unchanged]

theorem isEmpty_sweepPass (e : Expr ν) : (e.sweepPass ops p).tree.isEmpty = e.isEmpty := by
  cases e with
  | empty => rfl
  | node a l r =>
    rw [tree_sweepPass_node]
    cases h : ops.ruleOf p.replace? a (l.sweepPass ops p).tree (r.sweepPass ops p).tree with
    | none => rfl
    | some e =>
      obtain ⟨_, _, hfits, hreplace⟩ := OperatorSet.ruleOf_eq_some_iff.1 h
      exact isEmpty_of_replace? hfits hreplace

/-- The cases of a node after a pass: kept, one of its children that is not empty, or a number. -/
theorem sweepPass_node_cases (ops : OperatorSet) (p : Pass) (a : Atom ν) (l r : Expr ν) :
    ((node a l r).sweepPass ops p).tree = node a (l.sweepPass ops p).tree (r.sweepPass ops p).tree ∨
      (l.isEmpty = false ∧ ((node a l r).sweepPass ops p).tree = (l.sweepPass ops p).tree) ∨
      (r.isEmpty = false ∧ ((node a l r).sweepPass ops p).tree = (r.sweepPass ops p).tree) ∨
      ∃ c, ((node a l r).sweepPass ops p).tree = number c := by
  rw [tree_sweepPass_node]
  cases h : ops.ruleOf p.replace? a (l.sweepPass ops p).tree (r.sweepPass ops p).tree with
  | none => exact .inl rfl
  | some e =>
    obtain ⟨_, _, hfits, hreplace⟩ := OperatorSet.ruleOf_eq_some_iff.1 h
    have hne : e.isEmpty = false := isEmpty_of_replace? hfits hreplace
    rcases Pass.replace?_cases hreplace with rfl | ⟨_, rfl⟩ | ⟨c, rfl⟩
    · rw [isEmpty_sweepPass] at hne
      exact .inr (.inl ⟨hne, rfl⟩)
    · rw [isEmpty_sweepPass] at hne
      exact .inr (.inr (.inl ⟨hne, rfl⟩))
    · exact .inr (.inr (.inr ⟨c, rfl⟩))

/-! ### What holds everywhere after a pass -/

variable {q : Expr ν → Prop}

/-- Each subtree after a pass is what the pass has made of a subtree. -/
theorem everywhere_of_swept {e : Expr ν} (h : e.Everywhere fun s => q (s.sweepPass ops p).tree) :
    (e.sweepPass ops p).tree.Everywhere q := by
  induction e with
  | empty => trivial
  | node a l r ihl ihr =>
    obtain ⟨hroot, hl, hr⟩ := h
    rcases sweepPass_node_cases ops p a l r with heq | ⟨_, heq⟩ | ⟨_, heq⟩ | ⟨c, heq⟩
    · rw [heq] at hroot ⊢
      exact ⟨hroot, ihl hl, ihr hr⟩
    · rw [heq]
      exact ihl hl
    · rw [heq]
      exact ihr hr
    · rw [heq] at hroot ⊢
      exact ⟨hroot, trivial, trivial⟩

/-- What numbers have and kept nodes do not lose, holds everywhere after a pass. -/
theorem everywhere_sweepPass (hnumber : ∀ c, q (number c))
    (hkept : ∀ a l r, q (node a l r) → q (node a (l.sweepPass ops p).tree (r.sweepPass ops p).tree))
    {e : Expr ν} (h : e.Everywhere q) : (e.sweepPass ops p).tree.Everywhere q := by
  induction e with
  | empty => trivial
  | node a l r ihl ihr =>
    obtain ⟨hroot, hl, hr⟩ := h
    rcases sweepPass_node_cases ops p a l r with heq | ⟨_, heq⟩ | ⟨_, heq⟩ | ⟨c, heq⟩
    · rw [heq]
      exact ⟨hkept a l r hroot, ihl hl, ihr hr⟩
    · rw [heq]
      exact ihl hl
    · rw [heq]
      exact ihr hr
    · rw [heq]
      exact ⟨hnumber c, trivial, trivial⟩

/-! ### Operators keep their operands -/

/-- The root, if it is an operator in use, has just its operands. -/
def HasOperands (ops : OperatorSet) : Expr ν → Prop
  | empty => True
  | node a l r => ∀ op, ops.operator? a = some op → op.fits l r = true

omit [Arithmetic ν] in
theorem validateOperators_eq_ok_iff {e : Expr ν} :
    e.validateOperators ops = .ok () ↔ e.Everywhere (HasOperands ops) := by
  induction e with
  | empty => simp [validateOperators, Everywhere]
  | node a l r ihl ihr => rw [validateOperators_node_eq_ok_iff, ihl, ihr, Everywhere, HasOperands]

theorem fits_sweepPass (op : Operator) (l r : Expr ν) :
    op.fits (l.sweepPass ops p).tree (r.sweepPass ops p).tree = op.fits l r := by
  simp only [Operator.fits, isEmpty_sweepPass]

/-- An operator that is kept has as many operands as before. -/
theorem HasOperands.sweepPass {a : Atom ν} {l r : Expr ν} (h : (node a l r).HasOperands ops) :
    (node a (l.sweepPass ops p).tree (r.sweepPass ops p).tree).HasOperands ops := by
  intro op hop
  rw [fits_sweepPass]
  exact h op hop

theorem validateOperators_sweepPass {e : Expr ν} (h : e.validateOperators ops = .ok ()) :
    (e.sweepPass ops p).tree.validateOperators ops = .ok () := by
  rw [validateOperators_eq_ok_iff] at h ⊢
  refine everywhere_sweepPass ?_ ?_ h
  · intro c op hop
    cases hop
  · intro a l r hroot
    exact hroot.sweepPass

omit [Arithmetic ν] in
theorem checkOperators_eq_ok_iff {e : Expr ν} :
    e.checkOperators ops = .ok () ↔ e.isEmpty = false ∧ e.validateOperators ops = .ok () := by
  cases e with
  | empty => simp [checkOperators, nonempty, isEmpty, bind, Except.bind]
  | node a l r =>
    have hrun : (node a l r).checkOperators ops = (node a l r).validateOperators ops := rfl
    simp [hrun, isEmpty]

theorem checkOperators_sweepPass {e : Expr ν} (h : e.checkOperators ops = .ok ()) :
    (e.sweepPass ops p).tree.checkOperators ops = .ok () := by
  obtain ⟨hne, hvalid⟩ := checkOperators_eq_ok_iff.1 h
  exact checkOperators_eq_ok_iff.2 ⟨(isEmpty_sweepPass e).trans hne, validateOperators_sweepPass hvalid⟩

end Expr
end ExprCalculus
