import ExprCalculus.Number.Binary64
import ExprCalculus.Proofs.Simplify.Usable

/-!
# Folding of closed expressions

A tree that has a value without any variables consists of numbers and operators only. Constant folding computes that
value: a sweep goes up the tree just as evaluation does, and takes one step at each operator.
-/

namespace ExprCalculus

variable {ν : Type}

namespace Expr

/-- How many nodes of the tree hold an operator in use. -/
def operatorCount (ops : OperatorSet) : Expr ν → Nat
  | empty => 0
  | node a l r => l.operatorCount ops + r.operatorCount ops + if (ops.operator? a).isSome then 1 else 0

theorem operatorCount_of_operator {ops : OperatorSet} {a : Atom ν} {op : Operator}
    (h : ops.operator? a = some op) (l r : Expr ν) :
    (node a l r).operatorCount ops = l.operatorCount ops + r.operatorCount ops + 1 := by
  simp [operatorCount, h]

variable [Arithmetic ν] {ops : OperatorSet}

/-- At an operator a sweep that has made its operands into numbers takes one step more, to the operator's value. -/
theorem sweepPass_fold_of_numbers {a : Atom ν} {op : Operator} {l r e : Expr ν}
    (hop : ops.operator? a = some op) (hfits : op.fits l r = true)
    (hvalue : op.constant? (l.sweepPass ops .fold).tree (r.sweepPass ops .fold).tree = some e) :
    (node a l r).sweepPass ops .fold =
      ⟨e, (l.sweepPass ops .fold).steps + (r.sweepPass ops .fold).steps + 1⟩ := by
  have hrule : ops.ruleOf Pass.fold.replace? a (l.sweepPass ops .fold).tree (r.sweepPass ops .fold).tree = some e :=
    OperatorSet.ruleOf_eq_some_iff.2 ⟨op, hop, (fits_sweepPass op l r).trans hfits, hvalue⟩
  rw [sweepPass_node, hrule]

theorem sweepPass_fold_of_closed {e : Expr ν} {v : ν} (h : e.evaluate ops ∅ = .ok v) :
    e.sweepPass ops .fold = ⟨number v, e.operatorCount ops⟩ := by
  induction e generalizing v with
  | empty => simp [evaluate, check, nonempty, bind, Except.bind] at h
  | node a l r ihl ihr =>
    obtain ⟨hvalid, hv⟩ := evaluate_eq_ok_iff.1 h
    obtain ⟨hroot, hlvalid, hrvalid⟩ := validate_node_eq_ok_iff.1 hvalid
    cases hm : ops.meaning ∅ a with
    | number c =>
      obtain rfl := meaning_eq_number_iff.1 hm
      obtain ⟨rfl, rfl⟩ := children_empty_of_compute rfl hroot hv
      obtain rfl : c = v := by simpa [compute, hm] using hv
      rfl
    | «variable» w =>
      obtain ⟨name, _, _, hbound⟩ := meaning_eq_variable_iff.1 hm
      cases hbound
    | unresolved name => simp [compute, hm] at hv
    | operator op =>
      have hop := meaning_eq_operator_iff.1 hm
      have hfits : op.fits l r = true := (validateRoot_operator_eq_ok_iff hop).1 hroot
      obtain ⟨x, hx, hright⟩ := (compute_operator_eq_ok_iff hm).1 hv
      have hl := ihl (evaluate_eq_ok_iff.2 ⟨hlvalid, hx⟩)
      rw [operatorCount_of_operator hop]
      cases harity : op.arity with
      | unary =>
        simp only [harity] at hright
        obtain ⟨_, rfl⟩ := (Operator.fits_unary harity).1 hfits
        have hvalue := (Operator.constant?_unary harity (r := empty)).2 ⟨x, rfl, congrArg number hright⟩
        rw [sweepPass_fold_of_numbers hop hfits (by rw [hl]; exact hvalue), hl]
        rfl
      | binary =>
        simp only [harity] at hright
        obtain ⟨y, hy, hxy⟩ := hright
        have hr := ihr (evaluate_eq_ok_iff.2 ⟨hrvalid, hy⟩)
        have hvalue := (Operator.constant?_binary harity).2 ⟨x, y, rfl, rfl, congrArg number hxy⟩
        rw [sweepPass_fold_of_numbers hop hfits (by rw [hl, hr]; exact hvalue), hl, hr]

end Expr

namespace Optimization

variable [Arithmetic ν]

/-- Constant folding of a tree that has a value without variables succeeds, takes one step for each operator of the
tree and leaves just the value. -/
theorem foldLiterals_of_closed {ops : OperatorSet} {e : Expr ν} {v : ν} (h : e.evaluate ops ∅ = .ok v) :
    foldLiterals.runInPlace ops e = .done ⟨.number v, e.operatorCount ops⟩ := by
  have hvalue : e.HasValue ops ∅ := ⟨v, h⟩
  have hrun := Expr.optimizeInPlace_eq hvalue.check [.fold]
  rw [Expr.sweepPasses_singleton, Expr.sweepPass_fold_of_closed h] at hrun
  exact hrun

/-- `cos (2 - 2) / 4`. -/
def quarter : Expr Float :=
  .node (.symbol "/") (.node (.symbol "cos") (.node (.symbol "-") (.number 2) (.number 2)) .empty) (.number 4)

/-- Just the operators of `quarter`. -/
def quarterOperators : OperatorSet := .ofList [.subtraction, .division, .cosine]

theorem foldLiterals_of_closed_quarter :
    quarter.evaluate quarterOperators ∅ = .ok (Float.cos (2 - 2) / 4) ∧
      foldLiterals.runInPlace quarterOperators quarter = .done ⟨.number (Float.cos (2 - 2) / 4), 3⟩ := by
  have hvalue : quarter.evaluate quarterOperators ∅ = .ok (Float.cos (2 - 2) / 4) := rfl
  exact ⟨hvalue, foldLiterals_of_closed hvalue⟩

end Optimization
end ExprCalculus
