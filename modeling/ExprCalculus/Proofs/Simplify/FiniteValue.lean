import ExprCalculus.Proofs.Simplify.IdentityValue
import ExprCalculus.Proofs.Simplify.Usable

/-!
# Optimizations keep finite values

Under the laws of `IdentityLaws`, passes in any order and number keep the value of a tree whose subtrees have finite
values and whose powers have literal exponents. Each pass leaves a tree of the same kind behind: what a subtree has
become has the subtree's own value, up to the sign of a zero.
-/

namespace ExprCalculus

variable {ν : Type} [Arithmetic ν] {Finite : ν → Prop}

namespace Expr

variable {ops : OperatorSet} {bindings : Bindings ν} {p : Pass}

def HasFiniteValue (Finite : ν → Prop) (ops : OperatorSet) (bindings : Bindings ν) (e : Expr ν) : Prop :=
  ∃ v, e.evaluate ops bindings = .ok v ∧ Finite v

theorem HasFiniteValue.finite {e : Expr ν} {v : ν} (h : e.HasFiniteValue Finite ops bindings)
    (hv : e.evaluate ops bindings = .ok v) : Finite v := by
  obtain ⟨w, hw, hfin⟩ := h
  obtain rfl := Except.ok.inj (hw.symm.trans hv)
  exact hfin

theorem not_isOpenZeroPower_of_hasLiteralExponent {e : Expr ν} (h : e.HasLiteralExponent ops) :
    ¬e.IsOpenZeroPower ops bindings := by
  intro hopen
  obtain ⟨a, l, r, _, _, rfl, hop, _, _, hlit, _⟩ := hopen
  obtain ⟨c, rfl⟩ := h hop
  cases hlit

theorem evaluate_sweepPass (laws : IdentityLaws ν Finite) {e : Expr ν} {v : ν}
    (hv : e.evaluate ops bindings = .ok v) (hfin : e.Everywhere (HasFiniteValue Finite ops bindings))
    (hexp : e.Everywhere (HasLiteralExponent ops)) :
    ∃ w, (e.sweepPass ops p).tree.evaluate ops bindings = .ok w ∧ (w == v) = true := by
  obtain ⟨hvalid, hcompute⟩ := evaluate_eq_ok_iff.1 hv
  cases p with
  | fold =>
    have hvfin : Finite v := (hfin.root (isEmpty_of_compute hcompute)).finite hv
    exact ⟨v, (sameOutcome_sweepPass_fold e).evaluate.trans hv, laws.beq_self hvfin⟩
  | identities =>
    have hfinite : e.Everywhere fun s => ∀ w, s.compute ops bindings = .ok w → Finite w := by
      refine hfin.imp ?_
      intro s hs w hw
      obtain ⟨w', hw', hfin'⟩ := hs
      obtain rfl := Except.ok.inj ((evaluate_eq_ok_iff.1 hw').2.symm.trans hw)
      exact hfin'
    have hpow : e.Everywhere fun s => ¬s.IsOpenZeroPower ops bindings :=
      hexp.imp fun _ hs => not_isOpenZeroPower_of_hasLiteralExponent hs
    obtain ⟨hvalid', w, hw, hwv⟩ := yields_sweepPass_identities laws hvalid hcompute hfinite hpow
    exact ⟨w, evaluate_eq_ok_iff.2 ⟨hvalid', hw⟩, hwv⟩

/-- The value of the tree equals the number, all its subtrees have finite values, and all its powers have literals
as exponents. -/
structure FinitelyYields (Finite : ν → Prop) (ops : OperatorSet) (bindings : Bindings ν) (v : ν) (e : Expr ν) :
    Prop where
  value : ∃ w, e.evaluate ops bindings = .ok w ∧ (w == v) = true
  finite : e.Everywhere (HasFiniteValue Finite ops bindings)
  exponents : e.Everywhere (HasLiteralExponent ops)

theorem FinitelyYields.sweepPass (laws : IdentityLaws ν Finite) {e : Expr ν} {v : ν}
    (h : e.FinitelyYields Finite ops bindings v) :
    (e.sweepPass ops p).tree.FinitelyYields Finite ops bindings v := by
  obtain ⟨⟨w, hw, hwv⟩, hfin, hexp⟩ := h
  refine ⟨?_, everywhere_of_swept ?_, literalExponents_sweepPass hexp⟩
  · obtain ⟨w', hw', heq⟩ := evaluate_sweepPass (p := p) laws hw hfin hexp
    exact ⟨w', hw', laws.beq_trans heq hwv⟩
  -- A subtree of the new tree is what the pass has made of a subtree of the old one.
  · refine (hfin.and (hfin.subtrees.and hexp.subtrees)).imp ?_
    intro s hs
    obtain ⟨⟨u, hu, hufin⟩, hsfin, hsexp⟩ := hs
    obtain ⟨u', hu', heq⟩ := evaluate_sweepPass (p := p) laws hu hsfin hsexp
    exact ⟨u', hu', laws.finite_of_beq (laws.beq_symm heq) hufin⟩

theorem keptByPasses_finitelyYields (laws : IdentityLaws ν Finite) (v : ν) :
    KeptByPasses ops fun e : Expr ν => e.FinitelyYields Finite ops bindings v where
  check h := by
    obtain ⟨w, hw, _⟩ := h.value
    exact HasValue.check ⟨w, hw⟩
  sweepPass _ h := h.sweepPass laws

end Expr
end ExprCalculus
