import ExprCalculus.Proofs.Expr.FirstFault
import ExprCalculus.Proofs.Simplify.PassRuns

/-!
# Optimizations succeed or leave the tree alone

An optimization fails on just the trees in which the first check finds a fault, and then it has not touched them.
On all other trees it succeeds, and so does everything that may come after it: the check is one that passes keep.
-/

namespace ExprCalculus

variable {ν : Type} [Arithmetic ν] {ops : OperatorSet}

namespace Expr

theorem optimizeRoundsInPlace_of_fault {e : Expr ν} {fault : ExprFault ν}
    (h : e.checkOperators ops = .error fault) (passes : List Pass) {limit : Nat} (hlimit : limit ≠ 0) :
    e.optimizeRoundsInPlace ops passes limit = .stopped e fault := by
  cases limit with
  | zero => exact absurd rfl hlimit
  | succ limit =>
    simp only [optimizeRoundsInPlace, optimizeInPlace_of_fault h]
    rfl

omit [Arithmetic ν] in
/-- An empty tree is misused as a tree; any other fault lies in its structure. -/
theorem OperandFault.kind {e : Expr ν} {fault : ExprFault ν} (h : e.OperandFault ops fault) :
    fault.kind = if e.isEmpty then .treeMisuse else .structuralDefect := by
  rcases h with ⟨rfl, rfl⟩ | ⟨before, v, after, op, hviews, _, _, _, rfl⟩
  · rfl
  · cases e with
    | empty => simp [preorder_eq_viewsFrom, viewsFrom] at hviews
    | node a l r => rfl

end Expr

namespace Optimization

theorem eq_of_isIdle {o : Optimization} (h : o.IsIdle) : (∃ passes, o = rounds passes 0) ∨ o = stabilize 0 := by
  cases o with
  | foldLiterals => exact h.elim
  | applyIdentities => exact h.elim
  | single p => exact h.elim
  | once passes => exact h.elim
  | rounds passes limit => exact .inl ⟨passes, congrArg (rounds passes) h⟩
  | stabilize limit => exact .inr (congrArg stabilize h)

theorem runInPlace_of_isIdle {o : Optimization} (h : o.IsIdle) (e : Expr ν) :
    o.runInPlace ops e = .unchanged e := by
  rcases eq_of_isIdle h with ⟨passes, rfl⟩ | rfl
  · rfl
  · rfl

theorem runInPlace_of_fault {o : Optimization} (ho : ¬o.IsIdle) {e : Expr ν} {fault : ExprFault ν}
    (h : e.checkOperators ops = .error fault) : o.runInPlace ops e = .stopped e fault := by
  cases o with
  | foldLiterals => exact Expr.optimizeInPlace_of_fault h [.fold]
  | applyIdentities => exact Expr.optimizeInPlace_of_fault h [.identities]
  | single p => exact Expr.optimizeInPlace_of_fault h [p]
  | once passes => exact Expr.optimizeInPlace_of_fault h passes
  | rounds passes limit => exact Expr.optimizeRoundsInPlace_of_fault h passes ho
  | stabilize limit => exact Expr.optimizeRoundsInPlace_of_fault h Pass.all ho

/-- What an optimization that is asked for a round does, by the answer of the check. -/
theorem runInPlace_cases {o : Optimization} (ho : ¬o.IsIdle) (ops : OperatorSet) (e : Expr ν) :
    (∃ fault, e.checkOperators ops = .error fault ∧ o.runInPlace ops e = .stopped e fault) ∨
      ∃ s, e.checkOperators ops = .ok () ∧ o.runInPlace ops e = .done s ∧ s.tree.checkOperators ops = .ok () := by
  cases h : e.checkOperators ops with
  | error fault => exact .inl ⟨fault, rfl, runInPlace_of_fault ho h⟩
  | ok _ =>
    obtain ⟨s, hs, hkept⟩ := Expr.keptByPasses_check.runInPlace o h
    exact .inr ⟨s, rfl, hs, hkept⟩

theorem runInPlace_of_error {o : Optimization} {e : Expr ν} {fault : ExprFault ν}
    (h : (o.runInPlace ops e).outcome = .error fault) : o.runInPlace ops e = .stopped e fault := by
  by_cases ho : o.IsIdle
  · rw [runInPlace_of_isIdle ho] at h
    cases h
  · rcases runInPlace_cases ho ops e with ⟨fault', _, hrun⟩ | ⟨s, _, hrun, _⟩
    · rw [hrun] at h ⊢
      obtain rfl := Except.error.inj h
      rfl
    · rw [hrun] at h
      cases h

/-- Where one optimization has succeeded every other one succeeds. -/
theorem exists_runInPlace_later {o : Optimization} (ho : ¬o.IsIdle) {e : Expr ν} {s : Simplified ν}
    (h : o.runInPlace ops e = .done s) (later : Optimization) :
    ∃ s', later.runInPlace ops s.tree = .done s' := by
  rcases runInPlace_cases ho ops e with ⟨fault, _, hrun⟩ | ⟨t, _, hrun, hcheck⟩
  · rw [hrun] at h
    cases congrArg Rewritten.outcome h
  · obtain rfl := Rewritten.done_inj (hrun.symm.trans h)
    obtain ⟨s', hlater, _⟩ := Expr.keptByPasses_check.runInPlace later hcheck
    exact ⟨s', hlater⟩

theorem outcome_runInPlace_eq_error_iff {o : Optimization} (ho : ¬o.IsIdle) {e : Expr ν}
    {fault : ExprFault ν} :
    (o.runInPlace ops e).outcome = .error fault ↔ e.OperandFault ops fault := by
  rw [← Expr.checkOperators_eq_error_iff]
  rcases runInPlace_cases ho ops e with ⟨fault', hcheck, hrun⟩ | ⟨s, hcheck, hrun, _⟩
  · rw [hcheck, hrun]
    simp [Rewritten.stopped]
  · rw [hcheck, hrun]
    simp [Rewritten.done]

/-- An optimization without rounds does nothing. Any other one fails with just the fault of an empty tree, or of the
first operator that has not its operands, and then leaves the tree as it is. Where it does not fail, no other one
fails after it. The last part says what the operands of a node are in trees without a lone right child: as many
children as its operator has operands. -/
theorem runInPlace_allOrNothing (ops : OperatorSet) (o : Optimization) (e : Expr ν) :
    (o.runInPlace ops e).result = o.run ops e ∧
      (o.IsIdle → o.runInPlace ops e = .unchanged e) ∧
      (¬o.IsIdle →
        (∀ fault, (o.runInPlace ops e).outcome = .error fault ↔ e.OperandFault ops fault) ∧
        (∀ fault, (o.runInPlace ops e).outcome = .error fault →
          (o.runInPlace ops e).tree = e ∧
            fault.kind = if e.isEmpty then .treeMisuse else .structuralDefect) ∧
        (∀ op side, (o.runInPlace ops e).outcome ≠ .error (.operandLost op side)) ∧
        (∀ s, o.runInPlace ops e = .done s →
          ∀ later : Optimization, ∃ s', later.runInPlace ops s.tree = .done s')) ∧
      (e.Shapely → ∀ v ∈ e.preorder, ∀ op : Operator, v.suits op = true ↔ v.degree = op.arity.operands) := by
  refine ⟨result_runInPlace ops o e, fun h => runInPlace_of_isIdle h e, ?_, ?_⟩
  · intro ho
    refine ⟨fun fault => outcome_runInPlace_eq_error_iff ho, ?_, ?_,
      fun s hs later => exists_runInPlace_later ho hs later⟩
    · intro fault hfault
      have hkind := ((outcome_runInPlace_eq_error_iff ho).1 hfault).kind
      exact ⟨congrArg Rewritten.tree (runInPlace_of_error hfault), hkind⟩
    · intro op side hlost
      have hfault := (outcome_runInPlace_eq_error_iff ho).1 hlost
      rcases hfault with ⟨_, heq⟩ | ⟨_, _, _, _, _, _, _, _, heq⟩ <;> cases heq
  · intro hshape v hv op
    rw [Expr.preorder_eq_viewsFrom] at hv
    exact View.suits_iff_degree (Expr.left_of_right_of_shapely hshape v hv) op

/-- In `sin + x *` both operators lack their operands. Sine comes first. -/
example : (rounds Pass.all 3).runInPlace .full
    (.node (.symbol "+") (.symbol "sin") (.node (.symbol "*") (.symbol "x") .empty) : Expr ν) =
      .stopped (.node (.symbol "+") (.symbol "sin") (.node (.symbol "*") (.symbol "x") .empty))
        (.arityMismatch .sine 0) := rfl

end Optimization
end ExprCalculus
