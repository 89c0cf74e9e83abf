import ExprCalculus.Proofs.Derivative.Usable

/-!
# Derivatives by a variable that does not occur

By a variable that does not occur every rule builds a tree that the identities make a literal zero: the derivatives of
the operands have become zeros by the time that the pass comes to the operators that the rule has put above them,
and at those no other identity can come first, for zero is not one. One sweep is enough, however deep the tree.
-/

namespace ExprCalculus

variable {ν : Type} [Arithmetic ν]

/-- The operands at which the identities make an operator zero, whatever stands at the other side. -/
def Operator.IsZeroOn (op : Operator) (l r : Expr ν) : Prop :=
  let zero : Expr ν := .number Arithmetic.zero
  match op with
  | addition | subtraction => l = zero ∧ r = zero
  | multiplication => l = zero ∨ r = zero
  | division => l = zero
  | power | sine | cosine => False

/-- The pass for identities leaves nothing but a literal zero. -/
def Expr.Vanishes (ops : OperatorSet) (e : Expr ν) : Prop :=
  (e.sweepPass ops .identities).tree = number Arithmetic.zero

section Zero

variable (hzero : ((Arithmetic.zero : ν) == Arithmetic.zero) = true)
  (hone : ((Arithmetic.zero : ν) == Arithmetic.one) = false)
include hzero hone

theorem Operator.identity?_of_isZeroOn {op : Operator} {l r : Expr ν} (h : op.IsZeroOn l r) :
    op.identity? l r = some (.number Arithmetic.zero) := by
  have hisZero : (Expr.number (Arithmetic.zero : ν)).isZero = true := hzero
  have hisOne : (Expr.number (Arithmetic.zero : ν)).isOne = false := hone
  cases op with
  | addition =>
    obtain ⟨rfl, rfl⟩ := h
    simp [identity?, hisZero]
  | subtraction =>
    obtain ⟨rfl, rfl⟩ := h
    simp [identity?, hisZero]
  | multiplication =>
    -- A one at the other side comes first, and leaves this same zero.
    rcases h with rfl | rfl
    · simp only [identity?, hisZero, hisOne, Bool.or_true]
      split <;> rfl
    · simp only [identity?, hisZero, hisOne, Bool.true_or]
      split <;> simp_all
  | division =>
    obtain rfl := h
    simp only [identity?, hisZero]
    split <;> rfl
  | power => exact h.elim
  | sine => exact h.elim
  | cosine => exact h.elim

namespace Expr

open Operator

variable {ops : OperatorSet} {bindings : Bindings ν} {x : String}

theorem vanishes_tree {op : Operator} {l r : Expr ν} (hop : ops.contains op = true)
    (hroot : (op.tree l r).HasOperands ops)
    (h : op.IsZeroOn (l.sweepPass ops .identities).tree (r.sweepPass ops .identities).tree) :
    (op.tree l r).Vanishes ops := by
  have hsymbol : ops.operator? (.symbol op.symbol : Atom ν) = some op := OperatorSet.find?_symbol hop
  have hfits : op.fits (l.sweepPass ops .identities).tree (r.sweepPass ops .identities).tree = true :=
    (fits_sweepPass op l r).trans (hroot op hsymbol)
  have hidentity := identity?_of_isZeroOn hzero hone h
  rw [Vanishes, tree, tree_sweepPass_node, OperatorSet.ruleOf_of_operator hsymbol, if_pos hfits]
  simp only [Pass.replace?, hidentity, Option.getD_some]

theorem vanishes_of_derived {e d : Expr ν} (h : Derived ops bindings x e d)
    (habsent : e.EveryAtom fun a => a.symbol? ≠ some x) (hd : d.Everywhere (HasOperands ops)) :
    d.Vanishes ops := by
  induction h with
  | number => exact tree_sweepPass_leaf rfl _
  | @«variable» name v l r hfree hbound =>
    obtain ⟨hname, _, _⟩ := everyAtom_node.1 habsent
    have hne : name ≠ x := fun heq => hname (congrArg some heq)
    rw [if_neg hne]
    exact tree_sweepPass_leaf rfl _
  | sum hadd _ _ ihu ihv =>
    obtain ⟨_, hu, hv⟩ := everyAtom_node.1 habsent
    obtain ⟨hroot, hdu, hdv⟩ := hd
    exact vanishes_tree hzero hone hadd hroot ⟨ihu hu hdu, ihv hv hdv⟩
  | difference hsub _ _ ihu ihv =>
    obtain ⟨_, hu, hv⟩ := everyAtom_node.1 habsent
    obtain ⟨hroot, hdu, hdv⟩ := hd
    exact vanishes_tree hzero hone hsub hroot ⟨ihu hu hdu, ihv hv hdv⟩
  | product hmul hadd _ _ ihu ihv =>
    obtain ⟨_, hu, hv⟩ := everyAtom_node.1 habsent
    obtain ⟨hroot, ⟨hleft, hdu, _⟩, hright, _, hdv⟩ := hd
    have hl := vanishes_tree hzero hone hmul hleft (.inl (ihu hu hdu))
    have hr := vanishes_tree hzero hone hmul hright (.inr (ihv hv hdv))
    exact vanishes_tree hzero hone hadd hroot ⟨hl, hr⟩
  | quotient hdiv hmul hsub _ _ ihu ihv =>
    obtain ⟨_, hu, hv⟩ := everyAtom_node.1 habsent
    obtain ⟨hroot, ⟨hnumerator, ⟨hleft, hdu, _⟩, hright, _, hdv⟩, _⟩ := hd
    have hl := vanishes_tree hzero hone hmul hleft (.inl (ihu hu hdu))
    have hr := vanishes_tree hzero hone hmul hright (.inr (ihv hv hdv))
    exact vanishes_tree hzero hone hdiv hroot (vanishes_tree hzero hone hsub hnumerator ⟨hl, hr⟩)
  | power _ hmul _ ihu =>
    obtain ⟨_, hu, _⟩ := everyAtom_node.1 habsent
    obtain ⟨hroot, _, hdu⟩ := hd
    exact vanishes_tree hzero hone hmul hroot (.inr (ihu hu hdu))
  | sine _ _ hmul _ ihu =>
    obtain ⟨_, hu, _⟩ := everyAtom_node.1 habsent
    obtain ⟨hroot, _, hdu⟩ := hd
    exact vanishes_tree hzero hone hmul hroot (.inr (ihu hu hdu))
  | cosine _ _ hmul _ ihu =>
    obtain ⟨_, hu, _⟩ := everyAtom_node.1 habsent
    obtain ⟨hroot, _, hdu⟩ := hd
    exact vanishes_tree hzero hone hmul hroot (.inr (ihu hu hdu))

/-- The derivative by a variable that does not occur in the tree becomes a literal zero by the elimination of
identities, run once. -/
theorem applyIdentities_of_absent {e d : Expr ν} (h : e.differentiate ops bindings x = .ok d)
    (habsent : x ∉ e.symbols) :
    ∃ steps, Optimization.applyIdentities.runInPlace ops d = .done ⟨number Arithmetic.zero, steps⟩ := by
  have hcheck : d.checkOperators ops = .ok () := (usable_of_differentiate h).2.value.check
  have hoperands := validateOperators_eq_ok_iff.1 (checkOperators_eq_ok_iff.1 hcheck).2
  have hderived := derived_of_derive (differentiate_eq_ok_iff.1 h).2
  have hvanishes := vanishes_of_derived hzero hone hderived (not_mem_symbols_iff.1 habsent) hoperands
  have hrun := optimizeInPlace_eq hcheck [.identities]
  rw [sweepPasses_singleton] at hrun
  refine ⟨(d.sweepPass ops .identities).steps, hrun.trans ?_⟩
  rw [← hvanishes]

end Expr
end Zero

namespace Expr

/-- `cos (y ^ 2) / (3 * y)`. -/
def damped : Expr Float :=
  Operator.division.tree (Operator.cosine.tree (Operator.power.tree (.symbol "y") (.number 2)) .empty)
    (Operator.multiplication.tree (.number 3) (.symbol "y"))

theorem applyIdentities_of_absent_damped :
    ∃ d, damped.differentiate .full ⟨[("x", 1), ("y", 2)]⟩ "x" = .ok d ∧ "x" ∉ damped.symbols ∧
      ∃ steps, Optimization.applyIdentities.runInPlace .full d = .done ⟨number Arithmetic.zero, steps⟩ := by
  have habsent : "x" ∉ damped.symbols := by
    rw [not_mem_symbols_iff]
    simp [damped, Operator.tree, Operator.symbol, symbol, number, leaf, Atom.symbol?]
  obtain ⟨d, hd⟩ : ∃ d, damped.differentiate .full ⟨[("x", 1), ("y", 2)]⟩ "x" = .ok d := ⟨_, rfl⟩
  exact ⟨d, hd, habsent, applyIdentities_of_absent rfl rfl hd habsent⟩

end Expr
end ExprCalculus
