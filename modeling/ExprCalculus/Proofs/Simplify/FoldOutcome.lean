import ExprCalculus.Proofs.Simplify.AllOrNothing

/-!
# Constant folding keeps the outcome of evaluation

Evaluating a tree before and after constant folding has one outcome: the same number or the same fault. No law
of numbers is used, for folding applies the very operation that evaluation would apply. What carries the
induction is `SameOutcome`: besides the value, the check of the structure has to give the same answer, and
that answer depends on which children are missing. Where folding fails, the tree it has worked on is one that
it has not yet touched.
-/

namespace ExprCalculus

variable {ν : Type} {ops : OperatorSet}

namespace Expr

variable {bindings : Bindings ν}

/-- The check of a node asks of its children only which of them are missing. -/
theorem validateRoot_congr {a : Atom ν} {l r l' r' : Expr ν} (hl : l'.isEmpty = l.isEmpty)
    (hr : r'.isEmpty = r.isEmpty) :
    (node a l' r').validateRoot ops bindings = (node a l r).validateRoot ops bindings := by
  have hfits : ∀ op : Operator, op.fits (node a l' r').left (node a l' r').right =
      op.fits (node a l r).left (node a l r).right := by
    intro op
    simp only [Operator.fits, left, right, child, hl, hr]
  have hdegree : (node a l' r').degree = (node a l r).degree := by
    simp only [degree, left, right, child, hl, hr]
  have hleaf : (node a l' r').isLeaf = (node a l r).isLeaf := by
    simp only [isLeaf, hl, hr]
  have hoperands : ∀ op, (node a l' r').validateOperands op = (node a l r).validateOperands op := by
    intro op
    rw [validateOperands, validateOperands, hfits, hdegree]
  simp only [validateRoot, hoperands]
  rw [hleaf, hdegree]

variable [Arithmetic ν]

/-- Neither the check nor the evaluation of any tree around them tells the two trees apart. -/
structure SameOutcome (ops : OperatorSet) (bindings : Bindings ν) (e e' : Expr ν) : Prop where
  isEmpty : e'.isEmpty = e.isEmpty
  validate : e'.validate ops bindings = e.validate ops bindings
  compute : e'.compute ops bindings = e.compute ops bindings

namespace SameOutcome

theorem refl (e : Expr ν) : SameOutcome ops bindings e e := ⟨rfl, rfl, rfl⟩

theorem trans {e₁ e₂ e₃ : Expr ν} (h₁ : SameOutcome ops bindings e₁ e₂)
    (h₂ : SameOutcome ops bindings e₂ e₃) : SameOutcome ops bindings e₁ e₃ :=
  ⟨h₂.isEmpty.trans h₁.isEmpty, h₂.validate.trans h₁.validate, h₂.compute.trans h₁.compute⟩

theorem node {a : Atom ν} {l r l' r' : Expr ν} (hl : SameOutcome ops bindings l l')
    (hr : SameOutcome ops bindings r r') :
    SameOutcome ops bindings (.node a l r) (.node a l' r') := by
  refine ⟨rfl, ?_, ?_⟩
  · simp only [Expr.validate, validateRoot_congr hl.isEmpty hr.isEmpty, hl.validate, hr.validate]
  · have hleft : ((Expr.node a l' r').child .left).isEmpty = ((Expr.node a l r).child .left).isEmpty := hl.isEmpty
    have hright : ((Expr.node a l' r').child .right).isEmpty = ((Expr.node a l r).child .right).isEmpty := hr.isEmpty
    simp only [Expr.compute, hl.compute, hr.compute, bind_operand_congr hleft, bind_operand_congr hright]

theorem sweep {rule : NodeRule ν}
    (hrule : ∀ a l r e, rule a l r = some e → SameOutcome ops bindings (.node a l r) e)
    (e : Expr ν) : SameOutcome ops bindings e (e.sweep rule).tree := by
  -- The rule sees the swept children, so it is applied to the second of two equal nodes.
  induction e with
  | empty => exact refl _
  | node a l r ihl ihr =>
    have hnode : SameOutcome ops bindings (.node a l r)
        (.node a (l.sweep rule).tree (r.sweep rule).tree) := node ihl ihr
    rw [tree_sweep_node]
    cases h : rule a (l.sweep rule).tree (r.sweep rule).tree with
    | none => exact hnode
    | some e => exact hnode.trans (hrule a _ _ e h)

theorem evaluate {e e' : Expr ν} (h : SameOutcome ops bindings e e') :
    e'.evaluate ops bindings = e.evaluate ops bindings := by
  cases e with
  | empty =>
    have he' : e' = empty := isEmpty_iff.1 h.isEmpty
    rw [he']
  | node a l r =>
    cases e' with
    | empty => exact absurd h.isEmpty (by simp [Expr.isEmpty])
    | node a' l' r' =>
      have hv := h.validate
      have hc := h.compute
      simp only [Expr.evaluate, check, nonempty, hc]
      show (Expr.validate ops bindings (.node a' l' r') >>= fun _ => _) = _
      rw [hv]
      rfl

end SameOutcome

/-- An operator on literals has just the outcome of the number that folding puts in its place. -/
theorem sameOutcome_constant {a : Atom ν} {l r e : Expr ν}
    (h : ops.ruleOf Operator.constant? a l r = some e) :
    SameOutcome ops bindings (node a l r) e := by
  obtain ⟨op, hop, hfits, hconst⟩ := OperatorSet.ruleOf_eq_some_iff.1 h
  have hm : ops.meaning bindings a = .operator op := meaning_eq_operator_iff.2 hop
  have hroot : (node a l r).validateRoot ops bindings = .ok () := by
    rw [validateRoot, hm]
    exact validateOperands_eq_ok_iff.2 hfits
  have hnumber : ∀ x : ν, (number x).validate ops bindings = .ok () := fun _ => rfl
  cases harity : op.arity with
  | unary =>
    obtain ⟨x, rfl, rfl⟩ := (Operator.constant?_unary harity).1 hconst
    have hr : r = empty := ((Operator.fits_unary harity).1 hfits).2
    refine ⟨rfl, ?_, ?_⟩
    · rw [hnumber, validate_node_eq_ok_iff.2 ⟨hroot, hnumber x, by rw [hr]; rfl⟩]
    · exact ((compute_operator_eq_ok_iff hm).2 ⟨x, rfl, by simp only [harity]⟩).symm
  | binary =>
    obtain ⟨x, y, rfl, rfl, rfl⟩ := (Operator.constant?_binary harity).1 hconst
    refine ⟨rfl, ?_, ?_⟩
    · rw [hnumber, validate_node_eq_ok_iff.2 ⟨hroot, hnumber x, hnumber y⟩]
    · exact ((compute_operator_eq_ok_iff hm).2 ⟨x, rfl, by simp only [harity]; exact ⟨y, rfl, rfl⟩⟩).symm

theorem sameOutcome_sweepPass_fold (e : Expr ν) :
    SameOutcome ops bindings e (e.sweepPass ops .fold).tree :=
  SameOutcome.sweep (fun _ _ _ _ h => sameOutcome_constant h) e

end Expr

variable [Arithmetic ν]

/-- The tree that constant folding leaves, whatever the tree and whether or not folding fails, evaluates to the number or
to the fault to which it evaluated before. -/
theorem Optimization.evaluate_runInPlace_foldLiterals (ops : OperatorSet) (bindings : Bindings ν) (e : Expr ν) :
    (foldLiterals.runInPlace ops e).tree.evaluate ops bindings = e.evaluate ops bindings := by
  cases hcheck : e.checkOperators ops with
  | error fault =>
    have hstopped : foldLiterals.runInPlace ops e = .stopped e fault := runInPlace_of_fault id hcheck
    rw [hstopped]
    rfl
  | ok _ =>
    have hdone : foldLiterals.runInPlace ops e = .done (e.sweepPass ops .fold) := by
      rw [runInPlace_eq_sweepPasses hcheck, passes, Expr.sweepPasses_singleton]
    rw [hdone]
    exact (Expr.sameOutcome_sweepPass_fold e).evaluate

end ExprCalculus
