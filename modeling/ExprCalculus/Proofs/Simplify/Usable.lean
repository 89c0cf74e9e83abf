import ExprCalculus.Proofs.Simplify.PassRuns
import ExprCalculus.Proofs.Simplify.SweptValue

/-!
# Passes leave a tree usable

A tree that has a value can be rewritten, and has a value afterwards, though not always the same one. If all its
powers have literals as exponents, they have them afterwards too: folding and identities never touch a number.
-/

namespace ExprCalculus

variable {ν : Type} [Arithmetic ν]

namespace Expr

variable {ops : OperatorSet} {bindings : Bindings ν} {p : Pass}

/-! ### A value -/

def HasValue (ops : OperatorSet) (bindings : Bindings ν) (e : Expr ν) : Prop :=
  ∃ v, e.evaluate ops bindings = .ok v

theorem HasValue.check {e : Expr ν} (h : e.HasValue ops bindings) : e.checkOperators ops = .ok () := by
  obtain ⟨v, hv⟩ := h
  obtain ⟨hvalid, hcompute⟩ := evaluate_eq_ok_iff.1 hv
  exact checkOperators_eq_ok_iff.2 ⟨isEmpty_of_compute hcompute, validateOperators_of_validate hvalid⟩

theorem hasValue_iff_yieldsUpTo {e : Expr ν} {v : ν} :
    e.HasValue ops bindings ↔ YieldsUpTo (fun _ _ => True) ops bindings e v := by
  constructor
  · intro h
    obtain ⟨w, hw⟩ := h
    obtain ⟨hvalid, hcompute⟩ := evaluate_eq_ok_iff.1 hw
    exact ⟨hvalid, w, hcompute, trivial⟩
  · intro h
    obtain ⟨hvalid, w, hcompute, _⟩ := h
    exact ⟨w, evaluate_eq_ok_iff.2 ⟨hvalid, hcompute⟩⟩

/-- Where nothing is asked of the numbers, an identity keeps what it has to keep: operands and numbers have values. -/
theorem keepsIdentity_true (ops : OperatorSet) (bindings : Bindings ν) (e : Expr ν) :
    e.KeepsIdentity (fun _ _ => True) ops bindings := by
  cases e with
  | empty => trivial
  | node a l r =>
    intro op x y e' _ _ hl hr hidentity
    rcases Pass.replace?_cases (p := .identities) hidentity with rfl | ⟨_, rfl⟩ | ⟨c, rfl⟩
    · exact hl.imp fun _ _ => trivial
    · exact hr.imp fun _ _ => trivial
    · exact yieldsUpTo_number trivial

theorem hasValue_sweepPass {e : Expr ν} (h : e.HasValue ops bindings) :
    (e.sweepPass ops p).tree.HasValue ops bindings := by
  obtain ⟨v, hv⟩ := h
  cases p with
  | fold => exact ⟨v, (sameOutcome_sweepPass_fold e).evaluate.trans hv⟩
  | identities =>
    have hself : e.Everywhere fun s => ∀ w, s.evaluate ops bindings = .ok w → True :=
      everywhere_of_forall (fun _ _ _ => trivial) e
    have hcongr : ∀ s : Expr ν, s.IsCongruent (fun _ _ => True) ops bindings := by
      intro s op x y x' y' _ _ _ _
      trivial
    exact hasValue_iff_yieldsUpTo.2 (yieldsUpTo_sweepPass_identities hv trivial hself
      (everywhere_of_forall hcongr e) (everywhere_of_forall (keepsIdentity_true ops bindings) e))

theorem keptByPasses_hasValue : KeptByPasses ops fun e : Expr ν => e.HasValue ops bindings :=
  ⟨HasValue.check, fun _ h => hasValue_sweepPass h⟩

/-! ### Literal exponents -/

/-- The root, if it raises to a power, has a literal as its exponent. -/
def HasLiteralExponent (ops : OperatorSet) : Expr ν → Prop
  | empty => True
  | node a _ r => ops.operator? a = some .power → ∃ c, r = number c

theorem literalExponents_sweepPass {e : Expr ν} (h : e.Everywhere (HasLiteralExponent ops)) :
    (e.sweepPass ops p).tree.Everywhere (HasLiteralExponent ops) := by
  refine everywhere_sweepPass ?_ ?_ h
  · intro c hop
    cases hop
  · intro a l r hexponent hop
    obtain ⟨c, rfl⟩ := hexponent hop
    exact ⟨c, tree_sweepPass_leaf rfl p⟩

/-- The tree has a value, and all its powers have literals as exponents. -/
structure Usable (ops : OperatorSet) (bindings : Bindings ν) (e : Expr ν) : Prop where
  value : e.HasValue ops bindings
  exponents : e.Everywhere (HasLiteralExponent ops)

theorem keptByPasses_usable : KeptByPasses ops fun e : Expr ν => e.Usable ops bindings :=
  ⟨fun h => h.value.check, fun _ h => ⟨hasValue_sweepPass h.value, literalExponents_sweepPass h.exponents⟩⟩

end Expr
end ExprCalculus
