import ExprCalculus.Proofs.Simplify.FoldOutcome

/-!
# Values before and after a sweep of identities

Whatever relation between numbers is to hold between the values before and after, two things have to be
shown at each operator: that related operands give related results, and that an identity which fires
yields a related value. `yieldsUpTo_sweepPass_identities` puts them together over the whole tree.
-/

namespace ExprCalculus

variable {ν : Type} [Arithmetic ν]

namespace Expr

theorem isLiteral_iff {e : Expr ν} {c : ν} :
    e.isLiteral c = true ↔ ∃ x, e = number x ∧ (x == c) = true := by
  cases h : e.literal? with
  | none =>
    have hne := literal?_eq_none_iff.1 h
    simp [isLiteral, h, hne]
  | some x =>
    rw [literal?_eq_some_iff] at h
    subst h
    simp [isLiteral, literal?, number, leaf]

variable {ops : OperatorSet} {bindings : Bindings ν} {R : ν → ν → Prop}

/-- The tree is sound and its value is related to the number. -/
def YieldsUpTo (R : ν → ν → Prop) (ops : OperatorSet) (bindings : Bindings ν) (e : Expr ν) (v : ν) : Prop :=
  e.validate ops bindings = .ok () ∧ ∃ w, e.compute ops bindings = .ok w ∧ R w v

/-- The root applies the operator to operands of these values. A unary one ignores its second argument, which
is zero. -/
def Applies (ops : OperatorSet) (bindings : Bindings ν) (op : Operator) (x y : ν) : Expr ν → Prop
  | empty => False
  | node a l r =>
    ops.operator? a = some op ∧ l.evaluate ops bindings = .ok x ∧
      match op.arity with
      | .unary => y = Arithmetic.zero
      | .binary => r.evaluate ops bindings = .ok y

/-- All operators of the tree are applied to operands of this kind. -/
def OperandsAre (p : Operator → ν → ν → Prop) (ops : OperatorSet) (bindings : Bindings ν) (e : Expr ν) :
    Prop :=
  e.Everywhere fun s => ∀ op x y, s.Applies ops bindings op x y → p op x y

/-- The tree as the sweep of identities meets its root: the children are done. -/
def childrenSwept (ops : OperatorSet) : Expr ν → Expr ν
  | empty => empty
  | node a l r => node a (l.sweepPass ops .identities).tree (r.sweepPass ops .identities).tree

/-- All operators of the tree are of this kind, told the operands as the sweep of identities meets them and their
values before the sweep. -/
def OperandsMeet (p : Operator → Expr ν → Expr ν → ν → ν → Prop) (ops : OperatorSet) (bindings : Bindings ν)
    (e : Expr ν) : Prop :=
  e.Everywhere fun s => ∀ op x y, s.Applies ops bindings op x y →
    p op (s.childrenSwept ops).left (s.childrenSwept ops).right x y

/-- If the sweep of the operands leads to related values, the root gives related results. -/
def IsCongruent (R : ν → ν → Prop) (ops : OperatorSet) (bindings : Bindings ν) (e : Expr ν) : Prop :=
  ∀ op x y x' y', e.Applies ops bindings op x y → (e.childrenSwept ops).Applies ops bindings op x' y' →
    R x' x → R y' y → R (op.apply x' y') (op.apply x y)

/-- An identity that fires at the root, after the sweep of its operands, yields a related value. -/
def KeepsIdentity (R : ν → ν → Prop) (ops : OperatorSet) (bindings : Bindings ν) : Expr ν → Prop
  | empty => True
  | node a l r =>
    ∀ op x y e, (node a l r).Applies ops bindings op x y → op.arity = .binary →
      YieldsUpTo R ops bindings (l.sweepPass ops .identities).tree x →
        YieldsUpTo R ops bindings (r.sweepPass ops .identities).tree y →
          op.identity? (l.sweepPass ops .identities).tree (r.sweepPass ops .identities).tree = some e →
            YieldsUpTo R ops bindings e (op.apply x y)

theorem not_applies_leaf {a : Atom ν} (hop : ops.operator? a = none) {op : Operator} {x y : ν} :
    ¬(leaf a).Applies ops bindings op x y := by
  intro happlies
  rw [happlies.1] at hop
  cases hop

/-- A binary operator is applied to the values of its operands and to nothing else. -/
theorem Applies.eq_of_binary {a : Atom ν} {l r : Expr ν} {op op' : Operator} {x y x' y' : ν}
    (h : (node a l r).Applies ops bindings op' x' y') (hop : ops.operator? a = some op) (harity : op.arity = .binary)
    (hx : l.evaluate ops bindings = .ok x) (hy : r.evaluate ops bindings = .ok y) : op' = op ∧ x' = x ∧ y' = y := by
  obtain ⟨hop', hx', hy'⟩ := h
  obtain rfl := Option.some.inj (hop'.symm.trans hop)
  simp only [harity] at hy'
  exact ⟨rfl, Except.ok.inj (hx'.symm.trans hx), Except.ok.inj (hy'.symm.trans hy)⟩

theorem operandsMeet_leaf {p : Operator → Expr ν → Expr ν → ν → ν → Prop} {a : Atom ν}
    (hop : ops.operator? a = none) : (leaf a).OperandsMeet p ops bindings :=
  ⟨fun _ _ _ happlies => absurd happlies (not_applies_leaf hop), trivial, trivial⟩

theorem operandsMeet_binary {p : Operator → Expr ν → Expr ν → ν → ν → Prop} {a : Atom ν} {l r : Expr ν}
    {op : Operator} {x y : ν} (hop : ops.operator? a = some op) (harity : op.arity = .binary)
    (hx : l.evaluate ops bindings = .ok x) (hy : r.evaluate ops bindings = .ok y)
    (hxy : p op (l.sweepPass ops .identities).tree (r.sweepPass ops .identities).tree x y)
    (hl : l.OperandsMeet p ops bindings) (hr : r.OperandsMeet p ops bindings) :
    (node a l r).OperandsMeet p ops bindings := by
  refine ⟨?_, hl, hr⟩
  intro op' x' y' happlies
  obtain ⟨rfl, rfl, rfl⟩ := happlies.eq_of_binary hop harity hx hy
  exact hxy

theorem operandsAre_leaf {p : Operator → ν → ν → Prop} {a : Atom ν} (hop : ops.operator? a = none) :
    (leaf a).OperandsAre p ops bindings :=
  operandsMeet_leaf (p := fun op _ _ x y => p op x y) hop

theorem operandsAre_binary {p : Operator → ν → ν → Prop} {a : Atom ν} {l r : Expr ν} {op : Operator}
    {x y : ν} (hop : ops.operator? a = some op) (harity : op.arity = .binary)
    (hx : l.evaluate ops bindings = .ok x) (hy : r.evaluate ops bindings = .ok y) (hxy : p op x y)
    (hl : l.OperandsAre p ops bindings) (hr : r.OperandsAre p ops bindings) :
    (node a l r).OperandsAre p ops bindings :=
  operandsMeet_binary (p := fun op _ _ x y => p op x y) hop harity hx hy hxy hl hr

theorem yieldsUpTo_number {c v : ν} (h : R c v) : YieldsUpTo R ops bindings (number c) v :=
  ⟨rfl, c, rfl, h⟩

theorem YieldsUpTo.isEmpty {e : Expr ν} {v : ν} (h : YieldsUpTo R ops bindings e v) :
    e.isEmpty = false := by
  obtain ⟨_, w, hw, _⟩ := h
  exact isEmpty_of_compute hw

theorem YieldsUpTo.imp {e : Expr ν} {v v' : ν} (h : YieldsUpTo R ops bindings e v)
    (hv : ∀ w, R w v → R w v') : YieldsUpTo R ops bindings e v' := by
  obtain ⟨hvalid, w, hw, hwv⟩ := h
  exact ⟨hvalid, w, hw, hv w hwv⟩

theorem YieldsUpTo.of_isLiteral {e : Expr ν} {v c : ν} (h : YieldsUpTo R ops bindings e v)
    (hc : e.isLiteral c = true) : ∃ x, (x == c) = true ∧ R x v := by
  obtain ⟨x, rfl, hxc⟩ := isLiteral_iff.1 hc
  obtain ⟨_, w, hw, hwv⟩ := h
  have hxw : x = w := by simpa [number, leaf, compute, OperatorSet.meaning] using hw
  rw [← hxw] at hwv
  exact ⟨x, hxc, hwv⟩

/-! ### One operator that is kept -/

theorem Applies.compute {op : Operator} {x y : ν} {e : Expr ν} (h : e.Applies ops bindings op x y) :
    e.compute ops bindings = .ok (op.apply x y) := by
  cases e with
  | empty => exact h.elim
  | node a l r =>
    obtain ⟨hop, hx, hy⟩ := h
    refine (compute_operator_eq_ok_iff (meaning_eq_operator_iff.2 hop)).2
      ⟨x, (evaluate_eq_ok_iff.1 hx).2, ?_⟩
    cases harity : op.arity with
    | unary =>
      simp only [harity] at hy ⊢
      rw [hy]
    | binary =>
      simp only [harity] at hy ⊢
      exact ⟨y, (evaluate_eq_ok_iff.1 hy).2, rfl⟩

theorem applies_unary {a : Atom ν} {l r : Expr ν} {op : Operator} {x : ν} (hop : ops.operator? a = some op)
    (harity : op.arity = .unary) (hx : l.evaluate ops bindings = .ok x) :
    (node a l r).Applies ops bindings op x Arithmetic.zero :=
  ⟨hop, hx, by simp only [harity]⟩

theorem applies_binary {a : Atom ν} {l r : Expr ν} {op : Operator} {x y : ν} (hop : ops.operator? a = some op)
    (harity : op.arity = .binary) (hx : l.evaluate ops bindings = .ok x) (hy : r.evaluate ops bindings = .ok y) :
    (node a l r).Applies ops bindings op x y :=
  ⟨hop, hx, by simp only [harity]; exact hy⟩

theorem yieldsUpTo_kept_unary {a : Atom ν} {l : Expr ν} {op : Operator} {x : ν} (harity : op.arity = .unary)
    (hzero : R Arithmetic.zero Arithmetic.zero) (hcongr : (node a l empty).IsCongruent R ops bindings)
    (happlies : (node a l empty).Applies ops bindings op x Arithmetic.zero)
    (hl : YieldsUpTo R ops bindings (l.sweepPass ops .identities).tree x) :
    YieldsUpTo R ops bindings (node a (l.sweepPass ops .identities).tree empty) (op.apply x Arithmetic.zero) := by
  have hop : ops.operator? a = some op := happlies.1
  have hfits : op.fits (l.sweepPass ops .identities).tree empty = true :=
    (Operator.fits_unary harity).2 ⟨hl.isEmpty, rfl⟩
  obtain ⟨hlvalid, x', hx', hxx'⟩ := hl
  have hswept : ((node a l empty).childrenSwept ops).Applies ops bindings op x' Arithmetic.zero :=
    applies_unary hop harity (evaluate_eq_ok_iff.2 ⟨hlvalid, hx'⟩)
  exact ⟨validate_node_eq_ok_iff.2 ⟨(validateRoot_operator_eq_ok_iff hop).2 hfits, hlvalid, rfl⟩, _, hswept.compute,
    hcongr op x _ x' _ happlies hswept hxx' hzero⟩

theorem yieldsUpTo_kept_binary {a : Atom ν} {l r : Expr ν} {op : Operator} {x y : ν} (harity : op.arity = .binary)
    (hcongr : (node a l r).IsCongruent R ops bindings) (happlies : (node a l r).Applies ops bindings op x y)
    (hl : YieldsUpTo R ops bindings (l.sweepPass ops .identities).tree x)
    (hr : YieldsUpTo R ops bindings (r.sweepPass ops .identities).tree y) :
    YieldsUpTo R ops bindings (node a (l.sweepPass ops .identities).tree (r.sweepPass ops .identities).tree)
      (op.apply x y) := by
  have hop : ops.operator? a = some op := happlies.1
  have hfits : op.fits (l.sweepPass ops .identities).tree (r.sweepPass ops .identities).tree = true :=
    (Operator.fits_binary harity).2 ⟨hl.isEmpty, hr.isEmpty⟩
  obtain ⟨hlvalid, x', hx', hxx'⟩ := hl
  obtain ⟨hrvalid, y', hy', hyy'⟩ := hr
  have hswept : ((node a l r).childrenSwept ops).Applies ops bindings op x' y' :=
    applies_binary hop harity (evaluate_eq_ok_iff.2 ⟨hlvalid, hx'⟩) (evaluate_eq_ok_iff.2 ⟨hrvalid, hy'⟩)
  exact ⟨validate_node_eq_ok_iff.2 ⟨(validateRoot_operator_eq_ok_iff hop).2 hfits, hlvalid, hrvalid⟩, _,
    hswept.compute, hcongr op x y x' y' happlies hswept hxx' hyy'⟩

/-! ### One sweep -/

theorem yieldsUpTo_sweepPass_identities {e : Expr ν} {v : ν} (hv : e.evaluate ops bindings = .ok v)
    (hzero : R Arithmetic.zero Arithmetic.zero)
    (hself : e.Everywhere fun s => ∀ w, s.evaluate ops bindings = .ok w → R w w)
    (hcongr : e.Everywhere (IsCongruent R ops bindings))
    (hidentity : e.Everywhere (KeepsIdentity R ops bindings)) :
    YieldsUpTo R ops bindings (e.sweepPass ops .identities).tree v := by
  induction e generalizing v with
  | empty => simp [evaluate, check, nonempty, bind, Except.bind] at hv
  | node a l r ihl ihr =>
    obtain ⟨hvalid, hcompute⟩ := evaluate_eq_ok_iff.1 hv
    obtain ⟨hroot, hlvalid, hrvalid⟩ := validate_node_eq_ok_iff.1 hvalid
    obtain ⟨hvself, hlself, hrself⟩ := hself
    obtain ⟨hvcongr, hlcongr, hrcongr⟩ := hcongr
    obtain ⟨hvidentity, hlidentity, hridentity⟩ := hidentity
    cases hop : ops.operator? a with
    | none =>
      obtain ⟨rfl, rfl⟩ := children_empty_of_compute hop hroot hcompute
      have hsame : ((node a empty empty).sweepPass ops .identities).tree = node a empty empty :=
        tree_sweepPass_leaf hop _
      rw [hsame]
      exact ⟨hvalid, v, hcompute, hvself v hv⟩
    | some op =>
      have hfits : op.fits l r = true := (validateRoot_operator_eq_ok_iff hop).1 hroot
      obtain ⟨x, hx, hright⟩ := (compute_operator_eq_ok_iff (meaning_eq_operator_iff.2 hop)).1 hcompute
      have hxeval : l.evaluate ops bindings = .ok x := evaluate_eq_ok_iff.2 ⟨hlvalid, hx⟩
      have hl := ihl hxeval hlself hlcongr hlidentity
      rw [tree_sweepPass_node]
      cases harity : op.arity with
      | unary =>
        simp only [harity] at hright
        subst hright
        have hr : r = empty := ((Operator.fits_unary harity).1 hfits).2
        have hnone : ops.ruleOf Operator.identity? a (l.sweepPass ops .identities).tree
            (r.sweepPass ops .identities).tree = none := by
          rw [OperatorSet.ruleOf_of_operator hop, Operator.identity?_unary harity, ite_self]
        rw [Pass.replace?, hnone]
        subst hr
        exact yieldsUpTo_kept_unary harity hzero hvcongr (applies_unary hop harity hxeval) hl
      | binary =>
        simp only [harity] at hright
        obtain ⟨y, hy, rfl⟩ := hright
        have hyeval : r.evaluate ops bindings = .ok y := evaluate_eq_ok_iff.2 ⟨hrvalid, hy⟩
        have hr := ihr hyeval hrself hrcongr hridentity
        have happlies := applies_binary (r := r) hop harity hxeval hyeval
        have hkept := yieldsUpTo_kept_binary harity hvcongr happlies hl hr
        rw [Pass.replace?, OperatorSet.ruleOf_of_operator hop]
        split
        · cases hid : op.identity? (l.sweepPass ops .identities).tree
              (r.sweepPass ops .identities).tree with
          | none => exact hkept
          | some e' => exact hvidentity op x y e' happlies harity hl hr hid
        · exact hkept

end Expr
end ExprCalculus
