import ExprCalculus.Expr.Derivative
import ExprCalculus.Proofs.Expr.Evaluation

/-!
# The rules of differentiation as a relation

`Derived` has one case per rule. It names all that a rule copies, and asks for every operator that the rule
builds with. Statements on derivatives are inductions on it, after `derived_of_derive`.
-/

namespace ExprCalculus

variable {ν : Type}

/-- The tree that applies an operator; a unary one has its operand on the left. -/
def Operator.tree (op : Operator) (l r : Expr ν) : Expr ν := .node (.symbol op.symbol) l r

theorem OperatorSet.build_eq_ok_iff {ops : OperatorSet} {op : Operator} {l r d : Expr ν} :
    ops.build op l r = .ok d ↔ ops.contains op = true ∧ op.tree l r = d := by
  unfold build
  rw [bind_eq_ok_iff]
  constructor
  · intro hbuilt
    obtain ⟨name, hname, hd⟩ := hbuilt
    obtain ⟨hop, rfl⟩ := requireSymbol_eq_ok_iff.1 hname
    exact ⟨hop, Except.ok.inj hd⟩
  · intro hroot
    obtain ⟨hop, rfl⟩ := hroot
    exact ⟨op.symbol, requireSymbol_eq_ok_iff.2 ⟨hop, rfl⟩, rfl⟩

/-- An atom that is an operator in use is the operator's symbol. -/
theorem OperatorSet.node_of_operator {ops : OperatorSet} {a : Atom ν} {op : Operator} {l r : Expr ν}
    (h : ops.operator? a = some op) : ops.contains op = true ∧ .node a l r = op.tree l r := by
  cases a with
  | number v => simp [operator?] at h
  | symbol name =>
    obtain ⟨hop, rfl⟩ := find?_eq_some_iff.1 h
    exact ⟨hop, rfl⟩

namespace Expr

open Operator

section Trees

variable {ops : OperatorSet} {bindings : Bindings ν}

@[simp] theorem size_tree (op : Operator) (l r : Expr ν) : (op.tree l r).size = 1 + l.size + r.size := rfl

@[simp] theorem depth_tree (op : Operator) (l r : Expr ν) : (op.tree l r).depth = 1 + max l.depth r.depth := rfl

theorem meaning_symbol {op : Operator} (h : ops.contains op = true) :
    ops.meaning bindings (.symbol op.symbol) = .operator op :=
  meaning_eq_operator_iff.2 (OperatorSet.find?_symbol h)

theorem meaning_variable {name : String} {v : ν} (hfree : ops.find? name = none)
    (hbound : bindings.get? name = some v) : ops.meaning bindings (.symbol name) = .variable v :=
  meaning_eq_variable_iff.2 ⟨name, rfl, hfree, hbound⟩

theorem compute_variable [Arithmetic ν] {name : String} {v : ν} {l r : Expr ν} (hfree : ops.find? name = none)
    (hbound : bindings.get? name = some v) : (node (.symbol name) l r).compute ops bindings = .ok v := by
  simp only [compute, meaning_variable hfree hbound]

theorem validate_tree_eq_ok_iff {op : Operator} {l r : Expr ν} (h : ops.contains op = true) :
    (op.tree l r).validate ops bindings = .ok () ↔
      op.fits l r = true ∧ l.validate ops bindings = .ok () ∧ r.validate ops bindings = .ok () := by
  have hroot : (op.tree l r).validateRoot ops bindings = (op.tree l r).validateOperands op := by
    rw [tree, validateRoot, meaning_symbol h]
  rw [tree, validate_node_eq_ok_iff, ← tree, hroot, validateOperands_eq_ok_iff]
  rfl

end Trees

variable [Arithmetic ν]

/-- The rules give the second tree as the derivative of the first by `x`. -/
inductive Derived (ops : OperatorSet) (bindings : Bindings ν) (x : String) : Expr ν → Expr ν → Prop
  | number {c : ν} {l r : Expr ν} :
      Derived ops bindings x (node (.number c) l r) (number Arithmetic.zero)
  | «variable» {name : String} {v : ν} {l r : Expr ν} (hfree : ops.find? name = none)
      (hbound : bindings.get? name = some v) :
      Derived ops bindings x (node (.symbol name) l r)
        (number (if name = x then Arithmetic.one else Arithmetic.zero))
  | sum {u v du dv : Expr ν} (hadd : ops.contains addition = true)
      (hu : Derived ops bindings x u du) (hv : Derived ops bindings x v dv) :
      Derived ops bindings x (addition.tree u v) (addition.tree du dv)
  | difference {u v du dv : Expr ν} (hsub : ops.contains subtraction = true)
      (hu : Derived ops bindings x u du) (hv : Derived ops bindings x v dv) :
      Derived ops bindings x (subtraction.tree u v) (subtraction.tree du dv)
  | product {u v du dv : Expr ν} (hmul : ops.contains multiplication = true)
      (hadd : ops.contains addition = true)
      (hu : Derived ops bindings x u du) (hv : Derived ops bindings x v dv) :
      Derived ops bindings x (multiplication.tree u v)
        (addition.tree (multiplication.tree du v) (multiplication.tree u dv))
  | quotient {u v du dv : Expr ν} (hdiv : ops.contains division = true)
      (hmul : ops.contains multiplication = true) (hsub : ops.contains subtraction = true)
      (hu : Derived ops bindings x u du) (hv : Derived ops bindings x v dv) :
      Derived ops bindings x (division.tree u v)
        (division.tree (subtraction.tree (multiplication.tree du v) (multiplication.tree u dv))
          (multiplication.tree v v))
  | power {u du : Expr ν} {c : ν} (hpow : ops.contains power = true)
      (hmul : ops.contains multiplication = true) (hu : Derived ops bindings x u du) :
      Derived ops bindings x (power.tree u (Expr.number c))
        (multiplication.tree
          (multiplication.tree (Expr.number c) (power.tree u (Expr.number (c - Arithmetic.one)))) du)
  | sine {u v du : Expr ν} (hsin : ops.contains sine = true) (hcos : ops.contains cosine = true)
      (hmul : ops.contains multiplication = true) (hu : Derived ops bindings x u du) :
      Derived ops bindings x (sine.tree u v) (multiplication.tree (cosine.tree u empty) du)
  | cosine {u v du : Expr ν} (hcos : ops.contains cosine = true) (hsin : ops.contains sine = true)
      (hmul : ops.contains multiplication = true) (hu : Derived ops bindings x u du) :
      Derived ops bindings x (cosine.tree u v)
        (multiplication.tree
          (multiplication.tree (Expr.number Arithmetic.negOne) (sine.tree u empty)) du)

theorem derived_of_derive {ops : OperatorSet} {bindings : Bindings ν} {x : String} {e d : Expr ν}
    (h : e.derive ops bindings x = .ok d) : Derived ops bindings x e d := by
  induction e generalizing d with
  | empty => simp [derive] at h
  | node a u v ihu ihv =>
    cases hm : ops.meaning bindings a with
    | number c =>
      obtain rfl : a = .number c := meaning_eq_number_iff.1 hm
      simp only [derive, hm] at h
      obtain rfl := Except.ok.inj h
      exact .number
    | «variable» w =>
      obtain ⟨name, rfl, hfree, hbound⟩ := meaning_eq_variable_iff.1 hm
      simp only [derive, hm, Atom.symbol?, Option.some.injEq] at h
      obtain rfl := Except.ok.inj h
      exact .variable hfree hbound
    | unresolved name => simp [derive, hm] at h
    | operator op =>
      obtain ⟨hop, htree⟩ := OperatorSet.node_of_operator (l := u) (r := v) (meaning_eq_operator_iff.1 hm)
      rw [htree]
      simp only [derive, hm, bind_eq_ok_iff] at h
      obtain ⟨_, _, du, hdu, h⟩ := h
      have hu := ihu hdu
      cases op with
      | addition =>
        simp only [bind_eq_ok_iff, OperatorSet.build_eq_ok_iff] at h
        obtain ⟨_, _, dv, hdv, _, rfl⟩ := h
        exact .sum hop hu (ihv hdv)
      | subtraction =>
        simp only [bind_eq_ok_iff, OperatorSet.build_eq_ok_iff] at h
        obtain ⟨_, _, dv, hdv, _, rfl⟩ := h
        exact .difference hop hu (ihv hdv)
      | multiplication =>
        simp only [bind_eq_ok_iff, OperatorSet.build_eq_ok_iff] at h
        obtain ⟨_, _, dv, hdv, _, ⟨_, rfl⟩, _, ⟨_, rfl⟩, hadd, rfl⟩ := h
        exact .product hop hadd hu (ihv hdv)
      | division =>
        simp only [bind_eq_ok_iff, OperatorSet.build_eq_ok_iff] at h
        obtain ⟨_, _, dv, hdv, _, ⟨hmul, rfl⟩, _, ⟨_, rfl⟩, _, ⟨hsub, rfl⟩, _, ⟨_, rfl⟩, _, rfl⟩ := h
        exact .quotient hop hmul hsub hu (ihv hdv)
      | power =>
        obtain ⟨_, _, h⟩ := bind_eq_ok_iff.1 h
        cases hlit : v.literal? with
        | none => simp [hlit, throw, throwThe, MonadExceptOf.throw] at h
        | some c =>
          simp only [hlit, bind_eq_ok_iff, OperatorSet.build_eq_ok_iff] at h
          obtain ⟨_, ⟨_, rfl⟩, _, ⟨hmul, rfl⟩, _, rfl⟩ := h
          rw [literal?_eq_some_iff.1 hlit]
          exact .power hop hmul hu
      | sine =>
        simp only [bind_eq_ok_iff, OperatorSet.build_eq_ok_iff] at h
        obtain ⟨_, ⟨hcos, rfl⟩, hmul, rfl⟩ := h
        exact .sine hop hcos hmul hu
      | cosine =>
        simp only [bind_eq_ok_iff, OperatorSet.build_eq_ok_iff] at h
        obtain ⟨_, ⟨hsin, rfl⟩, _, ⟨hmul, rfl⟩, _, rfl⟩ := h
        exact .cosine hop hsin hmul hu

theorem differentiate_node {ops : OperatorSet} {bindings : Bindings ν} {x : String} (a : Atom ν) (u v : Expr ν) :
    (node a u v).differentiate ops bindings x =
      if (ops.find? x).isSome || !bindings.contains x then .error (.notBoundVariable x)
      else (node a u v).validate ops bindings >>= fun _ => (node a u v).derive ops bindings x := rfl

theorem differentiate_eq_ok_iff {ops : OperatorSet} {bindings : Bindings ν} {x : String} {e d : Expr ν} :
    e.differentiate ops bindings x = .ok d ↔
      (ops.find? x = none ∧ bindings.contains x = true ∧ e.validate ops bindings = .ok ()) ∧
        e.derive ops bindings x = .ok d := by
  cases e with
  | empty => simp [differentiate, nonempty, derive, bind, Except.bind]
  | node a u v =>
    rw [differentiate_node]
    by_cases hx : (ops.find? x).isSome || !bindings.contains x
    · rw [if_pos hx]
      constructor
      · intro heq
        cases heq
      · intro hrun
        obtain ⟨⟨hfree, hbound, _⟩, _⟩ := hrun
        simp [hfree, hbound] at hx
    · rw [if_neg hx, bind_unit_eq_ok_iff]
      have hyes : ops.find? x = none ∧ bindings.contains x = true := by simpa using hx
      simp [hyes.1, hyes.2]

end Expr
end ExprCalculus
