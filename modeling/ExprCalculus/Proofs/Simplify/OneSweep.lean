import ExprCalculus.Proofs.Simplify.FixedPoint

/-!
# One sweep is enough for one pass

A rewrite puts an operand or a number in the place of an operator. The operand has been swept before, and no pass has
anything to do at a number. So after a single sweep nothing is left in the tree to which the same pass still
applies, and running it once more takes no step. Another pass may well find something to do: that is what rounds
are for.
-/

namespace ExprCalculus

variable {ν : Type} [Arithmetic ν]

namespace Expr

variable {ops : OperatorSet} {p : Pass}

theorem everywhere_isNormal_number (c : ν) : (number c).Everywhere (IsNormal ops p) := by
  refine ⟨?_, trivial, trivial⟩
  intro op hop
  cases hop

theorem everywhere_isNormal_sweepPass {e : Expr ν} (h : e.Everywhere (HasOperands ops)) :
    (e.sweepPass ops p).tree.Everywhere (IsNormal ops p) := by
  induction e with
  | empty => trivial
  | node a l r ihl ihr =>
    obtain ⟨hroot, hloperands, hroperands⟩ := h
    have hl := ihl hloperands
    have hr := ihr hroperands
    rw [tree_sweepPass_node]
    cases hrule : ops.ruleOf p.replace? a (l.sweepPass ops p).tree (r.sweepPass ops p).tree with
    | none =>
      -- The rule was asked about the swept operands, the ones that the node is left with.
      have hnormal := (isNormal_iff (HasOperands.sweepPass hroot)).2 hrule
      exact ⟨hnormal, hl, hr⟩
    | some e' =>
      obtain ⟨_, _, _, hreplace⟩ := OperatorSet.ruleOf_eq_some_iff.1 hrule
      rcases Pass.replace?_cases hreplace with rfl | ⟨_, rfl⟩ | ⟨c, rfl⟩
      · exact hl
      · exact hr
      · exact everywhere_isNormal_number c

/-- A second sweep of a pass takes no step. -/
theorem sweepPass_sweepPass {e : Expr ν} (h : e.validateOperators ops = .ok ()) :
    (e.sweepPass ops p).tree.sweepPass ops p = .unchanged (e.sweepPass ops p).tree := by
  have hkept := validateOperators_eq_ok_iff.1 (validateOperators_sweepPass (p := p) h)
  have hnormal := everywhere_isNormal_sweepPass (p := p) (validateOperators_eq_ok_iff.1 h)
  exact sweep_eq_unchanged ((steps_sweepPass_eq_zero_iff hkept).2 hnormal)

end Expr

namespace Optimization

variable {ops : OperatorSet}

theorem single_runInPlace_normalizes {p : Pass} {e : Expr ν} {s : Simplified ν}
    (h : (single p).runInPlace ops e = .done s) :
    s.tree.Everywhere (Expr.IsNormal ops p) ∧ (single p).runInPlace ops s.tree = .unchanged s.tree := by
  have hok : e.optimize ops [p] = .ok s := Rewritten.result_eq_ok_iff.2 h
  obtain ⟨hne, hvalid, hs⟩ := Expr.optimize_eq_ok_iff.1 hok
  rw [Expr.sweepPasses_singleton] at hs
  rw [← hs]
  have hcheck := Expr.checkOperators_sweepPass (p := p) (Expr.checkOperators_eq_ok_iff.2 ⟨hne, hvalid⟩)
  exact ⟨Expr.everywhere_isNormal_sweepPass (Expr.validateOperators_eq_ok_iff.1 hvalid),
    single_runInPlace_of_unchanged hcheck (Expr.sweepPass_sweepPass hvalid)⟩

/-- Where constant folding succeeds it leaves no operator with numbers only, and where the elimination of identities
succeeds it leaves none with an identity that fits. Either of them, run again, takes no step and leaves the tree as
it is. -/
theorem runInPlace_leaves_isNormal (ops : OperatorSet) (e : Expr ν) :
    (∀ s, foldLiterals.runInPlace ops e = .done s →
      s.tree.Everywhere (Expr.IsNormal ops .fold) ∧
        foldLiterals.runInPlace ops s.tree = .unchanged s.tree) ∧
    ∀ s, applyIdentities.runInPlace ops e = .done s →
      s.tree.Everywhere (Expr.IsNormal ops .identities) ∧
        applyIdentities.runInPlace ops s.tree = .unchanged s.tree := by
  constructor
  · intro s hs
    exact single_runInPlace_normalizes (p := .fold) hs
  · intro s hs
    exact single_runInPlace_normalizes (p := .identities) hs

/-- `(x * 1 + 0 * y) * (2 - 2)`. -/
def cascading : Expr Float :=
  .node (.symbol "*")
    (.node (.symbol "+") (.node (.symbol "*") (.symbol "x") (.number 1)) (.node (.symbol "*") (.number 0) (.symbol "y")))
    (.node (.symbol "-") (.number 2) (.number 2))

def cascadingFolded : Expr Float :=
  .node (.symbol "*")
    (.node (.symbol "+") (.node (.symbol "*") (.symbol "x") (.number 1)) (.node (.symbol "*") (.number 0) (.symbol "y")))
    (.number (2 - 2))

/-- The products make the sum one of `x` and a zero, all in one sweep. That `2 - 2` is a zero too is for another pass to
find out. -/
def cascadingReduced : Expr Float :=
  .node (.symbol "*") (.symbol "x") (.node (.symbol "-") (.number 2) (.number 2))

theorem runInPlace_leaves_isNormal_cascading :
    (foldLiterals.runInPlace .full cascading = .done ⟨cascadingFolded, 1⟩ ∧
        cascadingFolded.Everywhere (Expr.IsNormal .full .fold) ∧
          foldLiterals.runInPlace .full cascadingFolded = .unchanged cascadingFolded) ∧
      applyIdentities.runInPlace .full cascading = .done ⟨cascadingReduced, 3⟩ ∧
        cascadingReduced.Everywhere (Expr.IsNormal .full .identities) ∧
          applyIdentities.runInPlace .full cascadingReduced = .unchanged cascadingReduced := by
  have hfold : foldLiterals.runInPlace .full cascading = .done ⟨cascadingFolded, 1⟩ := rfl
  have hreduce : applyIdentities.runInPlace .full cascading = .done ⟨cascadingReduced, 3⟩ := rfl
  obtain ⟨hfolds, hreduces⟩ := runInPlace_leaves_isNormal .full cascading
  exact ⟨⟨hfold, hfolds _ hfold⟩, hreduce, hreduces _ hreduce⟩

end Optimization
end ExprCalculus
