import ExprCalculus.Number.Binary64
import ExprCalculus.Proofs.Derivative.Rules
import ExprCalculus.Proofs.Expr.Symbols

/-!
# The value of a derivative

`Expr.slope?` computes the value of a derivative on the source, from the values of the operands and
without building a tree. A derivative that exists has just this value, in the very order of operations,
so that no law of numbers is used.
-/

namespace ExprCalculus

variable {ν : Type}

namespace Expr

open Operator

variable [Arithmetic ν] {ops : OperatorSet} {bindings : Bindings ν} {x : String}

/-- The value of the derivative by `x`, computed on the source. Operands that a rule copies enter by their
values. -/
def slope? (ops : OperatorSet) (bindings : Bindings ν) (x : String) : Expr ν → Option ν
  | empty => none
  | node a u v =>
    match ops.meaning bindings a with
    | .number _ => some Arithmetic.zero
    | .variable _ => some (if a.symbol? = some x then Arithmetic.one else Arithmetic.zero)
    | .unresolved _ => none
    | .operator op => do
      let du ← u.slope? ops bindings x
      let value (e : Expr ν) : Option ν := (e.evaluate ops bindings).toOption
      match op with
      | .addition => return du + (← v.slope? ops bindings x)
      | .subtraction => return du - (← v.slope? ops bindings x)
      | .multiplication => return du * (← value v) + (← value u) * (← v.slope? ops bindings x)
      | .division =>
        return (du * (← value v) - (← value u) * (← v.slope? ops bindings x)) / ((← value v) * (← value v))
      | .power =>
        let c ← v.literal?
        return c * Arithmetic.pow (← value u) (c - Arithmetic.one) * du
      | .sine => return Arithmetic.cos (← value u) * du
      | .cosine => return Arithmetic.negOne * Arithmetic.sin (← value u) * du

/-! ### The value of a built node -/

theorem evaluate_number (c : ν) : (number c).evaluate ops bindings = .ok c := rfl

theorem evaluate_tree_binary {op : Operator} {l r : Expr ν} {y z : ν} (h : ops.contains op = true)
    (harity : op.arity = .binary) (hl : l.evaluate ops bindings = .ok y)
    (hr : r.evaluate ops bindings = .ok z) :
    (op.tree l r).evaluate ops bindings = .ok (op.apply y z) := by
  obtain ⟨hlvalid, hy⟩ := evaluate_eq_ok_iff.1 hl
  obtain ⟨hrvalid, hz⟩ := evaluate_eq_ok_iff.1 hr
  have hfits : op.fits l r = true :=
    (fits_binary harity).2 ⟨isEmpty_of_compute hy, isEmpty_of_compute hz⟩
  refine evaluate_eq_ok_iff.2 ⟨(validate_tree_eq_ok_iff h).2 ⟨hfits, hlvalid, hrvalid⟩, ?_⟩
  refine (compute_operator_eq_ok_iff (meaning_symbol h)).2 ⟨y, hy, ?_⟩
  simp only [harity]
  exact ⟨z, hz, rfl⟩

theorem evaluate_tree_unary {op : Operator} {l : Expr ν} {y : ν} (h : ops.contains op = true)
    (harity : op.arity = .unary) (hl : l.evaluate ops bindings = .ok y) :
    (op.tree l empty).evaluate ops bindings = .ok (op.apply y Arithmetic.zero) := by
  obtain ⟨hlvalid, hy⟩ := evaluate_eq_ok_iff.1 hl
  have hfits : op.fits l empty = true := (fits_unary harity).2 ⟨isEmpty_of_compute hy, rfl⟩
  refine evaluate_eq_ok_iff.2 ⟨(validate_tree_eq_ok_iff h).2 ⟨hfits, hlvalid, rfl⟩, ?_⟩
  refine (compute_operator_eq_ok_iff (meaning_symbol h)).2 ⟨y, hy, ?_⟩
  simp only [harity]

/-! ### Value and slope of a source -/

/-- The source has the value `v` and the slope `w`, and `w` is the value of the other tree. -/
structure Ascends (ops : OperatorSet) (bindings : Bindings ν) (x : String) (e d : Expr ν) (v w : ν) :
    Prop where
  value : e.evaluate ops bindings = .ok v
  slope : e.slope? ops bindings x = some w
  derivative : d.evaluate ops bindings = .ok w

section Rules

variable {u v du dv : Expr ν} {y z dy dz : ν} (hu : Ascends ops bindings x u du y dy)
include hu

theorem ascends_sum (hadd : ops.contains addition = true) (hv : Ascends ops bindings x v dv z dz) :
    Ascends ops bindings x (addition.tree u v) (addition.tree du dv) (y + z) (dy + dz) where
  value := evaluate_tree_binary hadd rfl hu.value hv.value
  slope := by simp [tree, slope?, meaning_symbol hadd, hu.slope, hv.slope]
  derivative := evaluate_tree_binary hadd rfl hu.derivative hv.derivative

theorem ascends_difference (hsub : ops.contains subtraction = true)
    (hv : Ascends ops bindings x v dv z dz) :
    Ascends ops bindings x (subtraction.tree u v) (subtraction.tree du dv) (y - z) (dy - dz) where
  value := evaluate_tree_binary hsub rfl hu.value hv.value
  slope := by simp [tree, slope?, meaning_symbol hsub, hu.slope, hv.slope]
  derivative := evaluate_tree_binary hsub rfl hu.derivative hv.derivative

theorem ascends_product (hmul : ops.contains multiplication = true) (hadd : ops.contains addition = true)
    (hv : Ascends ops bindings x v dv z dz) :
    Ascends ops bindings x (multiplication.tree u v)
      (addition.tree (multiplication.tree du v) (multiplication.tree u dv)) (y * z)
      (dy * z + y * dz) where
  value := evaluate_tree_binary hmul rfl hu.value hv.value
  slope := by
    simp [tree, slope?, meaning_symbol hmul, hu.slope, hv.slope, hu.value, hv.value, Except.toOption]
  derivative := by
    have hleft := evaluate_tree_binary hmul rfl hu.derivative hv.value
    have hright := evaluate_tree_binary hmul rfl hu.value hv.derivative
    exact evaluate_tree_binary hadd rfl hleft hright

theorem ascends_quotient (hdiv : ops.contains division = true)
    (hmul : ops.contains multiplication = true) (hsub : ops.contains subtraction = true)
    (hv : Ascends ops bindings x v dv z dz) :
    Ascends ops bindings x (division.tree u v)
      (division.tree (subtraction.tree (multiplication.tree du v) (multiplication.tree u dv))
        (multiplication.tree v v)) (y / z) ((dy * z - y * dz) / (z * z)) where
  value := evaluate_tree_binary hdiv rfl hu.value hv.value
  slope := by
    simp [tree, slope?, meaning_symbol hdiv, hu.slope, hv.slope, hu.value, hv.value, Except.toOption]
  derivative := by
    have hleft := evaluate_tree_binary hmul rfl hu.derivative hv.value
    have hright := evaluate_tree_binary hmul rfl hu.value hv.derivative
    have hnumerator := evaluate_tree_binary hsub rfl hleft hright
    have hdenominator := evaluate_tree_binary hmul rfl hv.value hv.value
    exact evaluate_tree_binary hdiv rfl hnumerator hdenominator

theorem ascends_power (hpow : ops.contains power = true) (hmul : ops.contains multiplication = true)
    (c : ν) :
    Ascends ops bindings x (power.tree u (number c))
      (multiplication.tree
        (multiplication.tree (number c) (power.tree u (number (c - Arithmetic.one)))) du)
      (Arithmetic.pow y c) (c * Arithmetic.pow y (c - Arithmetic.one) * dy) where
  value := evaluate_tree_binary hpow rfl hu.value (evaluate_number c)
  slope := by
    have hlit : (number c).literal? = some c := literal?_eq_some_iff.2 rfl
    simp [tree, slope?, meaning_symbol hpow, hu.slope, hu.value, hlit, Except.toOption]
  derivative := by
    have hlowered := evaluate_tree_binary hpow rfl hu.value (evaluate_number (c - Arithmetic.one))
    have hscaled := evaluate_tree_binary hmul rfl (evaluate_number c) hlowered
    exact evaluate_tree_binary hmul rfl hscaled hu.derivative

theorem ascends_sine (hsin : ops.contains sine = true) (hcos : ops.contains cosine = true)
    (hmul : ops.contains multiplication = true) :
    Ascends ops bindings x (sine.tree u empty) (multiplication.tree (cosine.tree u empty) du)
      (Arithmetic.sin y) (Arithmetic.cos y * dy) where
  value := evaluate_tree_unary hsin rfl hu.value
  slope := by simp [tree, slope?, meaning_symbol hsin, hu.slope, hu.value, Except.toOption]
  derivative := evaluate_tree_binary hmul rfl (evaluate_tree_unary hcos rfl hu.value) hu.derivative

theorem ascends_cosine (hcos : ops.contains cosine = true) (hsin : ops.contains sine = true)
    (hmul : ops.contains multiplication = true) :
    Ascends ops bindings x (cosine.tree u empty)
      (multiplication.tree
        (multiplication.tree (number Arithmetic.negOne) (sine.tree u empty)) du)
      (Arithmetic.cos y) (Arithmetic.negOne * Arithmetic.sin y * dy) where
  value := evaluate_tree_unary hcos rfl hu.value
  slope := by simp [tree, slope?, meaning_symbol hcos, hu.slope, hu.value, Except.toOption]
  derivative := by
    have hsine := evaluate_tree_unary hsin rfl hu.value
    have hminus := evaluate_tree_binary hmul rfl (evaluate_number Arithmetic.negOne) hsine
    exact evaluate_tree_binary hmul rfl hminus hu.derivative

end Rules

/-! ### Whole trees -/

theorem ascends_of_derived {e d : Expr ν} (h : Derived ops bindings x e d)
    (hvalid : e.validate ops bindings = .ok ()) : ∃ v w, Ascends ops bindings x e d v w := by
  induction h with
  | @number c l r =>
    exact ⟨c, Arithmetic.zero, evaluate_eq_ok_iff.2 ⟨hvalid, rfl⟩, rfl, rfl⟩
  | @«variable» name b l r hfree hbound =>
    refine ⟨b, if name = x then Arithmetic.one else Arithmetic.zero, ?_, ?_, rfl⟩
    · exact evaluate_eq_ok_iff.2 ⟨hvalid, compute_variable hfree hbound⟩
    · simp only [slope?, meaning_variable hfree hbound, Atom.symbol?, Option.some.injEq]
  | sum hadd _ _ ihu ihv =>
    obtain ⟨_, hlvalid, hrvalid⟩ := (validate_tree_eq_ok_iff hadd).1 hvalid
    obtain ⟨y, dy, hu⟩ := ihu hlvalid
    obtain ⟨z, dz, hv⟩ := ihv hrvalid
    exact ⟨_, _, ascends_sum hu hadd hv⟩
  | difference hsub _ _ ihu ihv =>
    obtain ⟨_, hlvalid, hrvalid⟩ := (validate_tree_eq_ok_iff hsub).1 hvalid
    obtain ⟨y, dy, hu⟩ := ihu hlvalid
    obtain ⟨z, dz, hv⟩ := ihv hrvalid
    exact ⟨_, _, ascends_difference hu hsub hv⟩
  | product hmul hadd _ _ ihu ihv =>
    obtain ⟨_, hlvalid, hrvalid⟩ := (validate_tree_eq_ok_iff hmul).1 hvalid
    obtain ⟨y, dy, hu⟩ := ihu hlvalid
    obtain ⟨z, dz, hv⟩ := ihv hrvalid
    exact ⟨_, _, ascends_product hu hmul hadd hv⟩
  | quotient hdiv hmul hsub _ _ ihu ihv =>
    obtain ⟨_, hlvalid, hrvalid⟩ := (validate_tree_eq_ok_iff hdiv).1 hvalid
    obtain ⟨y, dy, hu⟩ := ihu hlvalid
    obtain ⟨z, dz, hv⟩ := ihv hrvalid
    exact ⟨_, _, ascends_quotient hu hdiv hmul hsub hv⟩
  | power hpow hmul _ ihu =>
    obtain ⟨_, hlvalid, _⟩ := (validate_tree_eq_ok_iff hpow).1 hvalid
    obtain ⟨y, dy, hu⟩ := ihu hlvalid
    exact ⟨_, _, ascends_power hu hpow hmul _⟩
  | sine hsin hcos hmul _ ihu =>
    obtain ⟨hfits, hlvalid, _⟩ := (validate_tree_eq_ok_iff hsin).1 hvalid
    obtain rfl := ((fits_unary rfl).1 hfits).2
    obtain ⟨y, dy, hu⟩ := ihu hlvalid
    exact ⟨_, _, ascends_sine hu hsin hcos hmul⟩
  | cosine hcos hsin hmul _ ihu =>
    obtain ⟨hfits, hlvalid, _⟩ := (validate_tree_eq_ok_iff hcos).1 hvalid
    obtain rfl := ((fits_unary rfl).1 hfits).2
    obtain ⟨y, dy, hu⟩ := ihu hlvalid
    exact ⟨_, _, ascends_cosine hu hcos hsin hmul⟩

theorem check_of_evaluate {e : Expr ν} {v : ν} (h : e.evaluate ops bindings = .ok v) :
    e.check ops bindings = .ok () := by
  rw [evaluate, bind_unit_eq_ok_iff] at h
  exact h.1

/-- Where a derivative exists, the source has a value. The derivative is sound, has no unbound symbol, and its
value is the slope of the source. -/
theorem evaluate_differentiate {e d : Expr ν} (h : e.differentiate ops bindings x = .ok d) :
    (∃ v, e.evaluate ops bindings = .ok v) ∧ d.check ops bindings = .ok () ∧
      d.unbound ops bindings = [] ∧
        ∃ w, e.slope? ops bindings x = some w ∧ d.evaluate ops bindings = .ok w := by
  obtain ⟨⟨_, _, hvalid⟩, hderive⟩ := differentiate_eq_ok_iff.1 h
  obtain ⟨v, w, hrun⟩ := ascends_of_derived (derived_of_derive hderive) hvalid
  exact ⟨⟨v, hrun.value⟩, check_of_evaluate hrun.derivative,
    unbound_eq_nil_iff.2 (resolved_of_evaluate hrun.derivative), w, hrun.slope, hrun.derivative⟩

/-- `cos (x * y) / (x ^ 3 - y)`. -/
def swing : Expr Float :=
  division.tree (cosine.tree (multiplication.tree (symbol "x") (symbol "y")) empty)
    (subtraction.tree (power.tree (symbol "x") (number 3)) (symbol "y"))

def swingBindings : Bindings Float := ⟨[("x", 2), ("y", 0.5)]⟩

theorem evaluate_differentiate_swing :
    ∃ d, swing.differentiate .full swingBindings "x" = .ok d ∧
      (∃ v, swing.evaluate .full swingBindings = .ok v) ∧ d.check .full swingBindings = .ok () ∧
        d.unbound .full swingBindings = [] ∧
          ∃ w, swing.slope? .full swingBindings "x" = some w ∧ d.evaluate .full swingBindings = .ok w :=
  ⟨_, rfl, evaluate_differentiate rfl⟩

end Expr
end ExprCalculus
