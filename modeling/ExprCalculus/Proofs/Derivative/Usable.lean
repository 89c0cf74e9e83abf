import ExprCalculus.Proofs.Derivative.Slope
import ExprCalculus.Proofs.Simplify.Usable

/-!
# Derivatives are usable, and usable trees have derivatives

A tree that has a derivative has a value and literal exponents, and so has the derivative. The converse needs the
operators that the rules build with: `exists_derived`.
-/

namespace ExprCalculus

variable {ν : Type}

namespace Operator

/-- The operators other than itself with which the rule for an operator builds. -/
def companions : Operator → List Operator
  | addition | subtraction => []
  | multiplication => [addition]
  | division => [multiplication, subtraction]
  | power => [multiplication]
  | sine => [cosine, multiplication]
  | cosine => [sine, multiplication]

end Operator

/-- With each operator its companions are in use. -/
def OperatorSet.IsClosed (ops : OperatorSet) : Prop :=
  ∀ op, ops.contains op = true → ∀ companion ∈ op.companions, ops.contains companion = true

theorem OperatorSet.isClosed_full : full.IsClosed := fun _ _ _ _ => rfl

theorem OperatorSet.build_of_contains {ops : OperatorSet} {op : Operator} (h : ops.contains op = true)
    (l r : Expr ν) : ops.build op l r = .ok (op.tree l r) :=
  build_eq_ok_iff.2 ⟨h, rfl⟩

namespace Expr

open Operator OperatorSet

variable [Arithmetic ν] {ops : OperatorSet} {bindings : Bindings ν} {x : String}

/-! ### Exponents -/

omit [Arithmetic ν] in
theorem literalExponents_number (c : ν) : (number c).Everywhere (HasLiteralExponent ops) := by
  refine ⟨?_, trivial, trivial⟩
  intro hop
  cases hop

section Trees

variable {op : Operator} {l r : Expr ν}

omit [Arithmetic ν] in
theorem literalExponents_tree (h : op ≠ .power) (hl : l.Everywhere (HasLiteralExponent ops))
    (hr : r.Everywhere (HasLiteralExponent ops)) : (op.tree l r).Everywhere (HasLiteralExponent ops) := by
  refine ⟨?_, hl, hr⟩
  intro hop
  obtain ⟨_, hsymbol⟩ := find?_eq_some_iff.1 hop
  exact absurd (symbol_inj.1 hsymbol).symm h

omit [Arithmetic ν] in
theorem literalExponents_power (c : ν) (hl : l.Everywhere (HasLiteralExponent ops)) :
    (power.tree l (number c)).Everywhere (HasLiteralExponent ops) :=
  ⟨fun _ => ⟨c, rfl⟩, hl, literalExponents_number c⟩

end Trees

/-- An atom that has a value, but is no operator, has no exponent. -/
theorem literalExponents_of_atom {a : Atom ν} {l r : Expr ν} {v : ν} (hop : ops.operator? a = none)
    (hvalid : (node a l r).validate ops bindings = .ok ()) (hv : (node a l r).compute ops bindings = .ok v) :
    (node a l r).Everywhere (HasLiteralExponent ops) := by
  refine everywhere_of_atom ?_ hop (validate_node_eq_ok_iff.1 hvalid).1 hv
  intro hpower
  rw [hop] at hpower
  cases hpower

/-- The rules copy literal exponents, and make new ones of them by lowering. -/
theorem literalExponents_of_derived {e d : Expr ν} (h : Derived ops bindings x e d)
    (hvalid : e.validate ops bindings = .ok ()) :
    e.Everywhere (HasLiteralExponent ops) ∧ d.Everywhere (HasLiteralExponent ops) := by
  have hmul : multiplication ≠ power := by decide
  have hadd : addition ≠ power := by decide
  have hsub : subtraction ≠ power := by decide
  have hdiv : division ≠ power := by decide
  have hsin : sine ≠ power := by decide
  have hcos : cosine ≠ power := by decide
  have hnone : (empty : Expr ν).Everywhere (HasLiteralExponent ops) := trivial
  induction h with
  | @number c l r => exact ⟨literalExponents_of_atom rfl hvalid rfl, literalExponents_number _⟩
  | @«variable» name b l r hfree hbound =>
    exact ⟨literalExponents_of_atom hfree hvalid (compute_variable hfree hbound), literalExponents_number _⟩
  | sum hop _ _ ihu ihv =>
    obtain ⟨_, hlvalid, hrvalid⟩ := (validate_tree_eq_ok_iff hop).1 hvalid
    obtain ⟨hu, hdu⟩ := ihu hlvalid
    obtain ⟨hv, hdv⟩ := ihv hrvalid
    exact ⟨literalExponents_tree hadd hu hv, literalExponents_tree hadd hdu hdv⟩
  | difference hop _ _ ihu ihv =>
    obtain ⟨_, hlvalid, hrvalid⟩ := (validate_tree_eq_ok_iff hop).1 hvalid
    obtain ⟨hu, hdu⟩ := ihu hlvalid
    obtain ⟨hv, hdv⟩ := ihv hrvalid
    exact ⟨literalExponents_tree hsub hu hv, literalExponents_tree hsub hdu hdv⟩
  | product hop _ _ _ ihu ihv =>
    obtain ⟨_, hlvalid, hrvalid⟩ := (validate_tree_eq_ok_iff hop).1 hvalid
    obtain ⟨hu, hdu⟩ := ihu hlvalid
    obtain ⟨hv, hdv⟩ := ihv hrvalid
    exact ⟨literalExponents_tree hmul hu hv,
      literalExponents_tree hadd (literalExponents_tree hmul hdu hv) (literalExponents_tree hmul hu hdv)⟩
  | quotient hop _ _ _ _ ihu ihv =>
    obtain ⟨_, hlvalid, hrvalid⟩ := (validate_tree_eq_ok_iff hop).1 hvalid
    obtain ⟨hu, hdu⟩ := ihu hlvalid
    obtain ⟨hv, hdv⟩ := ihv hrvalid
    have hnumerator :=
      literalExponents_tree hsub (literalExponents_tree hmul hdu hv) (literalExponents_tree hmul hu hdv)
    exact ⟨literalExponents_tree hdiv hu hv,
      literalExponents_tree hdiv hnumerator (literalExponents_tree hmul hv hv)⟩
  | @power u du c hop _ _ ihu =>
    obtain ⟨_, hlvalid, _⟩ := (validate_tree_eq_ok_iff hop).1 hvalid
    obtain ⟨hu, hdu⟩ := ihu hlvalid
    have hlowered := literalExponents_power (c - Arithmetic.one) hu
    exact ⟨literalExponents_power c hu,
      literalExponents_tree hmul (literalExponents_tree hmul (literalExponents_number c) hlowered) hdu⟩
  | sine hop _ _ _ ihu =>
    obtain ⟨hfits, hlvalid, _⟩ := (validate_tree_eq_ok_iff hop).1 hvalid
    obtain rfl := ((fits_unary rfl).1 hfits).2
    obtain ⟨hu, hdu⟩ := ihu hlvalid
    exact ⟨literalExponents_tree hsin hu hnone,
      literalExponents_tree hmul (literalExponents_tree hcos hu hnone) hdu⟩
  | cosine hop _ _ _ ihu =>
    obtain ⟨hfits, hlvalid, _⟩ := (validate_tree_eq_ok_iff hop).1 hvalid
    obtain rfl := ((fits_unary rfl).1 hfits).2
    obtain ⟨hu, hdu⟩ := ihu hlvalid
    have hminus := literalExponents_tree hmul (literalExponents_number Arithmetic.negOne)
      (literalExponents_tree hsin hu hnone)
    exact ⟨literalExponents_tree hcos hu hnone, literalExponents_tree hmul hminus hdu⟩

theorem usable_of_differentiate {e d : Expr ν} (h : e.differentiate ops bindings x = .ok d) :
    e.Usable ops bindings ∧ d.Usable ops bindings := by
  obtain ⟨⟨_, _, hvalid⟩, hderive⟩ := differentiate_eq_ok_iff.1 h
  have hderived := derived_of_derive hderive
  obtain ⟨v, w, hrun⟩ := ascends_of_derived hderived hvalid
  obtain ⟨he, hd⟩ := literalExponents_of_derived hderived hvalid
  exact ⟨⟨⟨v, hrun.value⟩, he⟩, ⟨w, hrun.derivative⟩, hd⟩

/-! ### Existence -/

theorem isEmpty_of_derived {e d : Expr ν} (h : Derived ops bindings x e d) : e.isEmpty = false := by
  cases h <;> rfl

/-- An operand that a rule differentiates is there. -/
theorem operand_left_of_derived {a : Atom ν} {u v du : Expr ν} {operator : String}
    (h : Derived ops bindings x u du) : (node a u v).operand .left operator = .ok u :=
  operand_eq_ok _ _ _ (isEmpty_of_derived h)

theorem operand_right_of_derived {a : Atom ν} {u v dv : Expr ν} {operator : String}
    (h : Derived ops bindings x v dv) : (node a u v).operand .right operator = .ok v :=
  operand_eq_ok _ _ _ (isEmpty_of_derived h)

theorem derive_of_derived {e d : Expr ν} (h : Derived ops bindings x e d) :
    e.derive ops bindings x = .ok d := by
  induction h with
  | number => rfl
  | @«variable» name b l r hfree hbound =>
    simp only [derive, meaning_variable hfree hbound, Atom.symbol?, Option.some.injEq]
    rfl
  | sum hadd hu hv ihu ihv =>
    simp only [tree, derive, meaning_symbol hadd, operand_left_of_derived hu, operand_right_of_derived hv, ihu, ihv,
      build_of_contains hadd]
    rfl
  | difference hsub hu hv ihu ihv =>
    simp only [tree, derive, meaning_symbol hsub, operand_left_of_derived hu, operand_right_of_derived hv, ihu, ihv,
      build_of_contains hsub]
    rfl
  | product hmul hadd hu hv ihu ihv =>
    simp only [tree, derive, meaning_symbol hmul, operand_left_of_derived hu, operand_right_of_derived hv, ihu, ihv,
      build_of_contains hmul, build_of_contains hadd]
    rfl
  | quotient hdiv hmul hsub hu hv ihu ihv =>
    simp only [tree, derive, meaning_symbol hdiv, operand_left_of_derived hu, operand_right_of_derived hv, ihu, ihv,
      build_of_contains hdiv, build_of_contains hmul, build_of_contains hsub]
    rfl
  | @power u du c hpow hmul hu ihu =>
    have hlit : (number c).literal? = some c := literal?_eq_some_iff.2 rfl
    have hexponent : (node (.symbol power.symbol) u (number c)).operand .right power.symbol = .ok (number c) := rfl
    simp only [tree, derive, meaning_symbol hpow, operand_left_of_derived hu, hexponent, ihu, hlit,
      build_of_contains hpow, build_of_contains hmul]
    rfl
  | sine hsin hcos hmul hu ihu =>
    simp only [tree, derive, meaning_symbol hsin, operand_left_of_derived hu, ihu, build_of_contains hcos,
      build_of_contains hmul]
    rfl
  | cosine hcos hsin hmul hu ihu =>
    simp only [tree, derive, meaning_symbol hcos, operand_left_of_derived hu, ihu, build_of_contains hsin,
      build_of_contains hmul]
    rfl

/-- The root, if it is an operator in use, has its companions in use. -/
def HasCompanions (ops : OperatorSet) : Expr ν → Prop
  | empty => True
  | node a _ _ => ∀ op, ops.operator? a = some op → ∀ companion ∈ op.companions, ops.contains companion = true

omit [Arithmetic ν] in
theorem hasCompanions_of_isClosed (h : ops.IsClosed) (e : Expr ν) : e.HasCompanions ops := by
  cases e with
  | empty => trivial
  | node a l r =>
    intro op hop
    exact h op (node_of_operator (l := l) (r := r) hop).1

theorem exists_derived {e : Expr ν} (he : e.Usable ops bindings) (hcomp : e.Everywhere (HasCompanions ops)) :
    ∃ d, Derived ops bindings x e d := by
  obtain ⟨⟨v, hv⟩, hexp⟩ := he
  induction e generalizing v with
  | empty => simp [evaluate, check, nonempty, bind, Except.bind] at hv
  | node a u w ihu ihw =>
    obtain ⟨hvalid, hcompute⟩ := evaluate_eq_ok_iff.1 hv
    obtain ⟨_, huvalid, hwvalid⟩ := validate_node_eq_ok_iff.1 hvalid
    obtain ⟨hexponent, huexp, hwexp⟩ := hexp
    obtain ⟨hcompanions, hucomp, hwcomp⟩ := hcomp
    cases hm : ops.meaning bindings a with
    | number c =>
      obtain rfl := meaning_eq_number_iff.1 hm
      exact ⟨_, .number⟩
    | «variable» b =>
      obtain ⟨name, rfl, hfree, hbound⟩ := meaning_eq_variable_iff.1 hm
      exact ⟨_, .variable hfree hbound⟩
    | unresolved name => simp [compute, hm] at hcompute
    | operator op =>
      have hop := meaning_eq_operator_iff.1 hm
      obtain ⟨huse, htree⟩ := node_of_operator (l := u) (r := w) hop
      obtain ⟨y, hy, hright⟩ := (compute_operator_eq_ok_iff hm).1 hcompute
      obtain ⟨du, hu⟩ := ihu hucomp huexp y (evaluate_eq_ok_iff.2 ⟨huvalid, hy⟩)
      have hbinary : op.arity = .binary → ∃ dw, Derived ops bindings x w dw := by
        intro harity
        simp only [harity] at hright
        obtain ⟨z, hz, _⟩ := hright
        exact ihw hwcomp hwexp z (evaluate_eq_ok_iff.2 ⟨hwvalid, hz⟩)
      have hneeds := hcompanions op hop
      rw [htree]
      cases op with
      | addition =>
        obtain ⟨dw, hw⟩ := hbinary rfl
        exact ⟨_, .sum huse hu hw⟩
      | subtraction =>
        obtain ⟨dw, hw⟩ := hbinary rfl
        exact ⟨_, .difference huse hu hw⟩
      | multiplication =>
        obtain ⟨dw, hw⟩ := hbinary rfl
        exact ⟨_, .product huse (hneeds addition (by decide)) hu hw⟩
      | division =>
        obtain ⟨dw, hw⟩ := hbinary rfl
        exact ⟨_, .quotient huse (hneeds multiplication (by decide)) (hneeds subtraction (by decide)) hu hw⟩
      | power =>
        -- No rule differentiates an exponent, so it has to be a literal.
        obtain ⟨c, rfl⟩ := hexponent hop
        exact ⟨_, .power huse (hneeds multiplication (by decide)) hu⟩
      | sine => exact ⟨_, .sine huse (hneeds cosine (by decide)) (hneeds multiplication (by decide)) hu⟩
      | cosine => exact ⟨_, .cosine huse (hneeds sine (by decide)) (hneeds multiplication (by decide)) hu⟩

/-- Under a closed set of operators a usable tree can be differentiated by every bound variable. -/
theorem Usable.differentiate (hops : ops.IsClosed) {e : Expr ν} (he : e.Usable ops bindings)
    (hfree : ops.find? x = none) (hbound : bindings.contains x = true) :
    ∃ d, e.differentiate ops bindings x = .ok d ∧ d.Usable ops bindings := by
  obtain ⟨v, hv⟩ := he.value
  obtain ⟨d, hderived⟩ := exists_derived he (everywhere_of_forall (hasCompanions_of_isClosed hops) e)
  have hd : e.differentiate ops bindings x = .ok d :=
    differentiate_eq_ok_iff.2 ⟨⟨hfree, hbound, (evaluate_eq_ok_iff.1 hv).1⟩, derive_of_derived hderived⟩
  exact ⟨d, hd, (usable_of_differentiate hd).2⟩

end Expr
end ExprCalculus
