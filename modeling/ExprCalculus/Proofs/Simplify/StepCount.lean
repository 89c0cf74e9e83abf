import ExprCalculus.Number.Binary64
import ExprCalculus.Proofs.Simplify.Composition
import ExprCalculus.Proofs.Simplify.StepSize

/-!
# What the number of steps tells

An optimization counts its steps over passes and rounds, and also those in parts of the tree that a later step takes
away. The number that it gives is zero just where the tree has stayed the same, and it bounds how much smaller the tree
has become. No step makes a tree deeper or brings a symbol into it.
-/

namespace ExprCalculus.Optimization

variable {ν : Type} [Arithmetic ν] {ops : OperatorSet}

open ExprCalculus.Expr

/-- An optimization that succeeds takes no step just where it leaves the tree as it is, and each step takes at least one
node away. Folds take at most two nodes away, and identities at least two. The tree does not become deeper, and its
symbols have all been in it before. -/
theorem steps_runInPlace {o : Optimization} {e : Expr ν} {s : Simplified ν} (h : o.runInPlace ops e = .done s) :
    (s.steps = 0 ↔ s.tree = e) ∧ s.tree.size + s.steps ≤ e.size ∧
      ((∀ p ∈ o.passes, p = .fold) → e.size ≤ s.tree.size + 2 * s.steps) ∧
      ((∀ p ∈ o.passes, p = .identities) → s.tree.size + 2 * s.steps ≤ e.size) ∧
      s.tree.depth ≤ e.depth ∧ ∀ name ∈ s.tree.symbols, name ∈ e.symbols := by
  obtain rfl := eq_sweepPasses_of_runInPlace h
  have hsize := size_sweepPasses_add_steps_le ops o.passes e
  refine ⟨?_, hsize, ?_, ?_, ?_, ?_⟩
  · constructor
    · intro hsteps
      exact congrArg Simplified.tree (sweepPasses_eq_unchanged hsteps)
    · intro htree
      rw [htree] at hsize
      omega
  · intro hfold
    refine (accumulates_size_le_add 2).sweepPasses ops ?_ e
    intro p hp
    rw [hfold p hp]
    exact size_le_sweepPass_fold ops
  · intro hidentities
    refine (accumulates_size_add_le 2).sweepPasses ops ?_ e
    intro p hp
    rw [hidentities p hp]
    exact size_sweepPass_identities_le ops
  · exact accumulates_depth_le.sweepPasses ops (fun p _ => depth_sweepPass_le ops p) e
  · exact accumulates_symbols_subset.sweepPasses ops (fun p _ => symbols_sweepPass_subset ops p) e

/-- `sin (x * (2 - 1)) + y * 0`. -/
def fading : Expr Float :=
  .node (.symbol "+")
    (.node (.symbol "sin")
      (.node (.symbol "*") (.symbol "x") (.node (.symbol "-") (.number 2) (.number 1))) .empty)
    (.node (.symbol "*") (.symbol "y") (.number 0))

/-- `sin x`. -/
def faded : Expr Float := .node (.symbol "sin") (.symbol "x") .empty

/-- One fold and three identities leave two of ten nodes. -/
theorem steps_runInPlace_fading :
    (stabilize 5).runInPlace .full fading = .done ⟨faded, 4⟩ ∧
      (4 = 0 ↔ faded = fading) ∧ faded.size + 4 ≤ fading.size ∧
      ((∀ p ∈ (stabilize 5).passes, p = .fold) → fading.size ≤ faded.size + 2 * 4) ∧
      ((∀ p ∈ (stabilize 5).passes, p = .identities) → faded.size + 2 * 4 ≤ fading.size) ∧
      faded.depth ≤ fading.depth ∧ ∀ name ∈ faded.symbols, name ∈ fading.symbols := by
  have hrun : (stabilize 5).runInPlace .full fading = .done ⟨faded, 4⟩ := rfl
  exact ⟨hrun, steps_runInPlace hrun⟩

end ExprCalculus.Optimization
