import ExprCalculus.Number.Binary64
import ExprCalculus.Proofs.Simplify.NormalForm
import ExprCalculus.Proofs.Simplify.PassRuns
import ExprCalculus.Proofs.Simplify.StepSize

/-!
# Rounds reach a fixed point

A step of a pass makes a tree smaller, so a tree has fewer rounds with steps than it has nodes. The round after them
takes none, and so no pass of the round has anything to do on the tree that it leaves.
-/

namespace ExprCalculus

variable {ν : Type} [Arithmetic ν]

namespace Expr

variable {ops : OperatorSet}

/-- As many rounds as the tree has nodes are enough: what a round with steps leaves is smaller. -/
theorem steps_after_rounds (passes : List Pass) {limit : Nat} {e : Expr ν} (hlimit : e.size ≤ limit) :
    ((e.sweepPasses ops (List.replicate limit passes).flatten).tree.sweepPasses ops passes).steps = 0 := by
  have hsize := size_sweepPasses_add_steps_le ops passes e
  induction limit generalizing e with
  | zero =>
    have hsame : (e.sweepPasses ops (List.replicate 0 passes).flatten).tree = e := rfl
    rw [hsame]
    omega
  | succ limit ih =>
    rw [List.replicate_succ, List.flatten_cons, sweepPasses_append]
    cases hsteps : (e.sweepPasses ops passes).steps with
    | zero =>
      have hstable := sweepPasses_eq_unchanged hsteps
      rw [hstable, Simplified.unchanged_andThen, sweepPasses_replicate_of_stable hstable]
      exact hsteps
    | succ steps =>
      exact ih (by omega) (size_sweepPasses_add_steps_le ops passes _)

theorem optimizeRoundsInPlace_reaches (passes : List Pass) {limit : Nat} {e : Expr ν}
    (h : e.checkOperators ops = .ok ()) (hlimit : e.size ≤ limit) :
    ∃ s, e.optimizeRoundsInPlace ops passes limit = .done s ∧ s.tree.checkOperators ops = .ok () ∧
      (s.tree.sweepPasses ops passes).steps = 0 :=
  ⟨_, optimizeRoundsInPlace_eq h passes limit, keptByPasses_check.sweepPasses _ h, steps_after_rounds passes hlimit⟩

end Expr

namespace Optimization

variable {ops : OperatorSet}

theorem single_runInPlace_of_unchanged {p : Pass} {e : Expr ν} (hcheck : e.checkOperators ops = .ok ())
    (h : e.sweepPass ops p = .unchanged e) : (single p).runInPlace ops e = .unchanged e := by
  have hrun := Expr.optimizeInPlace_eq hcheck [p]
  rw [Expr.sweepPasses_singleton, h] at hrun
  exact hrun

/-- With at least as many rounds as a tree has nodes, no pass in the list has anything left to do on the result. With
the passes in use by default, no operator in it is left with numbers only, and none with an identity that fits. -/
theorem runInPlace_rounds_isStable {e : Expr ν} (hne : e.isEmpty = false)
    (hoperands : e.Everywhere (Expr.HasOperands ops)) {limit : Nat} (hlimit : e.size ≤ limit) :
    (∀ passes : List Pass, ∃ s, (rounds passes limit).runInPlace ops e = .done s ∧
      ∀ p ∈ passes, (single p).runInPlace ops s.tree = .unchanged s.tree) ∧
    ∃ s, (stabilize limit).runInPlace ops e = .done s ∧
      (∀ p, (single p).runInPlace ops s.tree = .unchanged s.tree) ∧
      ∀ p, s.tree.Everywhere (Expr.IsNormal ops p) := by
  have hcheck : e.checkOperators ops = .ok () :=
    Expr.checkOperators_eq_ok_iff.2 ⟨hne, Expr.validateOperators_eq_ok_iff.2 hoperands⟩
  constructor
  · intro passes
    obtain ⟨s, hs, hkept, hsteps⟩ := Expr.optimizeRoundsInPlace_reaches passes hcheck hlimit
    refine ⟨s, hs, ?_⟩
    intro p hp
    exact single_runInPlace_of_unchanged hkept (Expr.sweepPass_eq_unchanged_of_round hsteps p hp)
  · obtain ⟨s, hs, hkept, hsteps⟩ := Expr.optimizeRoundsInPlace_reaches Pass.all hcheck hlimit
    have hsame : ∀ p, s.tree.sweepPass ops p = .unchanged s.tree := by
      intro p
      exact Expr.sweepPass_eq_unchanged_of_round hsteps p (by cases p <;> decide)
    refine ⟨s, hs, fun p => single_runInPlace_of_unchanged hkept (hsame p), ?_⟩
    intro p
    have hvalid := (Expr.checkOperators_eq_ok_iff.1 hkept).2
    refine (Expr.steps_sweepPass_eq_zero_iff (Expr.validateOperators_eq_ok_iff.1 hvalid)).1 ?_
    rw [hsame p]
    rfl

/-- `y ^ sin (x * 0)`: the identity for the product makes a number that only the next round folds. -/
def vanishing : Expr Float :=
  .node (.symbol "^") (.symbol "y")
    (.node (.symbol "sin") (.node (.symbol "*") (.symbol "x") (.number 0)) .empty)

theorem runInPlace_rounds_isStable_vanishing :
    vanishing.isEmpty = false ∧ vanishing.Everywhere (Expr.HasOperands .full) ∧ vanishing.size ≤ 6 ∧
      (∀ passes : List Pass, ∃ s, (rounds passes 6).runInPlace .full vanishing = .done s ∧
        ∀ p ∈ passes, (single p).runInPlace .full s.tree = .unchanged s.tree) ∧
      ∃ s, (stabilize 6).runInPlace .full vanishing = .done s ∧
        (∀ p, (single p).runInPlace .full s.tree = .unchanged s.tree) ∧
        ∀ p, s.tree.Everywhere (Expr.IsNormal .full p) := by
  have hoperands : vanishing.Everywhere (Expr.HasOperands .full) := Expr.validateOperators_eq_ok_iff.1 rfl
  have hsize : vanishing.size ≤ 6 := by decide
  exact ⟨rfl, hoperands, hsize, runInPlace_rounds_isStable rfl hoperands hsize⟩

end Optimization
end ExprCalculus
