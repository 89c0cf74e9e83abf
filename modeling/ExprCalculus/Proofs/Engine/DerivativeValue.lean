import ExprCalculus.Proofs.Engine.Report
import ExprCalculus.Proofs.Simplify.Binary64Identities
import ExprCalculus.Proofs.Simplify.FiniteValue

/-!
# The derivative's value in a report

A report gives the value of the simplified derivative. Where the derivative itself is finite throughout, the two have
the same value: exponents in derivatives are literals, so no zero raised to zero gets in the way.
-/

namespace ExprCalculus

namespace Engine

/-- The value of a derivative is not changed by its simplification, if all its subtrees have finite values. -/
theorem derivativeValue_report {lib : MathLibrary} (hlib : lib.Lawful) {g : Engine (Binary64 lib)}
    {text x : String} {r : Report (Binary64 lib)} (h : g.report text x = .ok r)
    (hfin : r.derivative.Everywhere fun s => ∃ w, g.evaluate s = .ok w ∧ w.IsFinite) :
    ∃ v, g.evaluate r.derivative = .ok v ∧ (r.derivativeValue == v) = true := by
  have laws := identityLaws_binary64 hlib
  obtain ⟨e, _, d, s, w, _, _, hd, hs, hw, rfl⟩ := report_eq_ok_iff.1 h
  obtain ⟨⟨v, hv⟩, hexp⟩ := (Expr.usable_of_differentiate hd).2
  obtain ⟨_, hcompute⟩ := Expr.evaluate_eq_ok_iff.1 hv
  have hvfin : v.IsFinite := Expr.HasFiniteValue.finite (hfin.root (Expr.isEmpty_of_compute hcompute)) hv
  have hyields : d.FinitelyYields Binary64.IsFinite g.operators g.bindings v :=
    ⟨⟨v, hv, laws.beq_self hvfin⟩, hfin, hexp⟩
  -- Simplification is one of the runs that keep the value, so both end in the same tree.
  obtain ⟨s', hs', hkept⟩ := (Expr.keptByPasses_finitelyYields laws v).run g.optimization hyields
  obtain rfl : s' = s := by
    rw [← simplify_eq_run, hs] at hs'
    exact (Except.ok.inj hs').symm
  obtain ⟨w', hw', heq⟩ := hkept.value
  obtain rfl : w' = w := Except.ok.inj (hw'.symm.trans hw)
  exact ⟨v, hv, heq⟩

/-! ### A report -/

/-- At the origin, with identities before and after folding. -/
def origin : Engine (Binary64 .identitiesOnly) where
  operators := .full
  bindings := ⟨[("x", (0 : Float))]⟩
  passes := [.identities, .fold, .identities]
  stableRounds := some 5

/-- `x ^ 2 + sin x` in brackets. -/
def originText : String :=
  "\x7b \x7b \x7bx\x7d ^ \x7b2\x7d \x7d + \x7b \x7bx\x7d sin \x7d \x7d"

def originSource : Expr (Binary64 .identitiesOnly) :=
  Operator.addition.tree (Operator.power.tree (.symbol "x") (.number (2 : Float)))
    (Operator.sine.tree (.symbol "x") .empty)

/-- `(2 * x ^ 1) * 1`. -/
def originPower : Expr (Binary64 .identitiesOnly) :=
  Operator.multiplication.tree
    (Operator.multiplication.tree (.number (2 : Float)) (Operator.power.tree (.symbol "x") (.number (1 : Float))))
    (.number (1 : Float))

/-- `cos x * 1`. -/
def originSine : Expr (Binary64 .identitiesOnly) :=
  Operator.multiplication.tree (Operator.cosine.tree (.symbol "x") .empty) (.number (1 : Float))

theorem derivativeValue_report_origin :
    MathLibrary.identitiesOnly.Lawful ∧
      ∃ r, origin.report originText "x" = .ok r ∧
        r.derivative = Operator.addition.tree originPower originSine ∧
        (r.derivative.Everywhere fun s => ∃ w, origin.evaluate s = .ok w ∧ w.IsFinite) ∧
          ∃ v, origin.evaluate r.derivative = .ok v ∧ (r.derivativeValue == v) = true := by
  have hpower : originPower.Everywhere fun s => ∃ w, origin.evaluate s = .ok w ∧ w.IsFinite :=
    ⟨⟨(0 : Float), rfl, rfl⟩,
      ⟨⟨(0 : Float), rfl, rfl⟩, ⟨⟨(2 : Float), rfl, rfl⟩, trivial, trivial⟩,
        ⟨(0 : Float), rfl, rfl⟩, ⟨⟨(0 : Float), rfl, rfl⟩, trivial, trivial⟩,
        ⟨(1 : Float), rfl, rfl⟩, trivial, trivial⟩,
      ⟨(1 : Float), rfl, rfl⟩, trivial, trivial⟩
  have hsine : originSine.Everywhere fun s => ∃ w, origin.evaluate s = .ok w ∧ w.IsFinite :=
    ⟨⟨(1 : Float), rfl, rfl⟩,
      ⟨⟨(1 : Float), rfl, rfl⟩, ⟨⟨(0 : Float), rfl, rfl⟩, trivial, trivial⟩, trivial⟩,
      ⟨(1 : Float), rfl, rfl⟩, trivial, trivial⟩
  have hadd : origin.operators.contains .addition = true := rfl
  have hleft : origin.evaluate originPower = .ok (0 : Float) := rfl
  have hright : origin.evaluate originSine = .ok (1 : Float) := rfl
  have hfin : (Operator.addition.tree originPower originSine).Everywhere fun s =>
      ∃ w, origin.evaluate s = .ok w ∧ w.IsFinite :=
    ⟨⟨_, Expr.evaluate_tree_binary hadd rfl hleft hright, rfl⟩, hpower, hsine⟩
  have hread : Expr.read originText = .ok originSource := rfl
  have hderivative : origin.differentiate "x" originSource =
      .ok (Operator.addition.tree originPower originSine) := rfl
  obtain ⟨_, _, _, _, _, _, hreport⟩ := exists_report hread hderivative
  exact ⟨lawful_identitiesOnly, _, hreport, rfl, hfin, derivativeValue_report lawful_identitiesOnly hreport hfin⟩

end Engine
end ExprCalculus
