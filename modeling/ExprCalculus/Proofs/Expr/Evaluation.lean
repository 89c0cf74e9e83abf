import ExprCalculus.Expr.Value
import ExprCalculus.Simplify.Pass

/-!
# Checking and evaluating node by node

What it takes for a check or an evaluation to succeed, one statement per function.
`Expr.Everywhere` says that a property holds of every subtree.
-/

namespace ExprCalculus

theorem bind_eq_ok_iff {ε α β : Type} {x : Except ε α} {f : α → Except ε β} {b : β} :
    x >>= f = .ok b ↔ ∃ a, x = .ok a ∧ f a = .ok b := by
  cases x with
  | error fault => simp [bind, Except.bind]
  | ok a => simp [bind, Except.bind]

theorem bind_eq_error_iff {ε α β : Type} {x : Except ε α} {f : α → Except ε β} {fault : ε} :
    x >>= f = .error fault ↔ x = .error fault ∨ ∃ a, x = .ok a ∧ f a = .error fault := by
  cases x with
  | error fault' => simp [bind, Except.bind]
  | ok a => simp [bind, Except.bind]

theorem mapError_eq_ok_iff {ε ε' α : Type} {x : Except ε α} {f : ε → ε'} {a : α} :
    x.mapError f = .ok a ↔ x = .ok a := by
  cases x with
  | error fault =>
    constructor <;> intro h <;> cases h
  | ok b =>
    constructor
    · intro h
      rw [Except.ok.inj h]
    · intro h
      rw [Except.ok.inj h]
      rfl

theorem bind_unit_eq_ok_iff {ε β : Type} {x : Except ε Unit} {y : Except ε β} {b : β} :
    (x >>= fun _ => y) = .ok b ↔ x = .ok () ∧ y = .ok b := by
  rw [bind_eq_ok_iff]
  constructor
  · intro hrun
    obtain ⟨⟨⟩, hx, hy⟩ := hrun
    exact ⟨hx, hy⟩
  · intro hrun
    obtain ⟨hx, hy⟩ := hrun
    exact ⟨(), hx, hy⟩

namespace Expr

variable {ν : Type}

/-! ### Every subtree -/

/-- The property holds of the tree and of all that hangs below it, the empty places apart. -/
def Everywhere (p : Expr ν → Prop) : Expr ν → Prop
  | empty => True
  | node a l r => p (node a l r) ∧ l.Everywhere p ∧ r.Everywhere p

theorem everywhere_iff {p : Expr ν → Prop} {e : Expr ν} :
    e.Everywhere p ↔ ∀ path s, e.at? path = some s → p s := by
  induction e with
  | empty => simp [Everywhere, at?]
  | node a l r ihl ihr =>
    constructor
    · intro htree path s h
      obtain ⟨hroot, hl, hr⟩ := htree
      cases path with
      | nil =>
        have hs : node a l r = s := by simpa [at?] using h
        rw [← hs]
        exact hroot
      | cons side path =>
        cases side with
        | left => exact ihl.1 hl path s h
        | right => exact ihr.1 hr path s h
    · intro h
      refine ⟨h [] _ rfl, ihl.2 ?_, ihr.2 ?_⟩
      · intro path s hs
        exact h (.left :: path) s hs
      · intro path s hs
        exact h (.right :: path) s hs

theorem everywhere_of_forall {p : Expr ν → Prop} (h : ∀ s, p s) (e : Expr ν) : e.Everywhere p := by
  induction e with
  | empty => trivial
  | node a l r ihl ihr => exact ⟨h _, ihl, ihr⟩

theorem Everywhere.imp {p q : Expr ν → Prop} {e : Expr ν} (h : e.Everywhere p)
    (hpq : ∀ s, p s → q s) : e.Everywhere q := by
  induction e with
  | empty => trivial
  | node a l r ihl ihr => exact ⟨hpq _ h.1, ihl h.2.1, ihr h.2.2⟩

theorem Everywhere.and {p q : Expr ν → Prop} {e : Expr ν} (hp : e.Everywhere p)
    (hq : e.Everywhere q) : e.Everywhere fun s => p s ∧ q s := by
  induction e with
  | empty => trivial
  | node a l r ihl ihr => exact ⟨⟨hp.1, hq.1⟩, ihl hp.2.1 hq.2.1, ihr hp.2.2 hq.2.2⟩

/-- What holds everywhere in a tree holds everywhere in each of its subtrees. -/
theorem Everywhere.subtrees {p : Expr ν → Prop} {e : Expr ν} (h : e.Everywhere p) :
    e.Everywhere fun s => s.Everywhere p := by
  induction e with
  | empty => trivial
  | node a l r ihl ihr => exact ⟨h, ihl h.2.1, ihr h.2.2⟩

theorem Everywhere.root {p : Expr ν → Prop} {e : Expr ν} (h : e.Everywhere p)
    (hne : e.isEmpty = false) : p e := by
  cases e with
  | empty => simp [isEmpty] at hne
  | node a l r => exact h.1

/-- The property holds of all atoms of the tree. -/
def EveryAtom (p : Atom ν → Prop) (e : Expr ν) : Prop :=
  e.Everywhere fun s => ∀ a, s.atom? = some a → p a

@[simp]
theorem everyAtom_empty {p : Atom ν → Prop} : (empty : Expr ν).EveryAtom p := trivial

@[simp]
theorem everyAtom_node {p : Atom ν → Prop} {a : Atom ν} {l r : Expr ν} :
    (node a l r).EveryAtom p ↔ p a ∧ l.EveryAtom p ∧ r.EveryAtom p := by
  simp [EveryAtom, Everywhere, atom?]

theorem EveryAtom.imp {p q : Atom ν → Prop} {e : Expr ν} (h : e.EveryAtom p) (hpq : ∀ a, p a → q a) :
    e.EveryAtom q :=
  Everywhere.imp h fun _ hs a ha => hpq a (hs a ha)

theorem EveryAtom.and {p q : Atom ν → Prop} {e : Expr ν} (hp : e.EveryAtom p) (hq : e.EveryAtom q) :
    e.EveryAtom fun a => p a ∧ q a :=
  (Everywhere.and hp hq).imp fun _ hs a ha => ⟨hs.1 a ha, hs.2 a ha⟩

/-! ### The structure -/

section Structure

variable {ops : OperatorSet} {bindings : Bindings ν}

theorem validateOperands_eq_ok_iff {e : Expr ν} {op : Operator} :
    e.validateOperands op = .ok () ↔ op.fits e.left e.right = true := by
  unfold validateOperands
  split <;> simp_all

theorem operand_left_of_fits {a : Atom ν} {op : Operator} {l r : Expr ν} (h : op.fits l r = true) :
    (node a l r).operand .left op.symbol = .ok l :=
  operand_eq_ok _ _ _ (Operator.isEmpty_left_of_fits h)

theorem operand_right_of_fits {a : Atom ν} {op : Operator} {l r : Expr ν} (harity : op.arity = .binary)
    (h : op.fits l r = true) : (node a l r).operand .right op.symbol = .ok r :=
  operand_eq_ok _ _ _ ((Operator.fits_binary harity).1 h).2

theorem validate_node_eq_ok_iff {a : Atom ν} {l r : Expr ν} :
    (node a l r).validate ops bindings = .ok () ↔
      (node a l r).validateRoot ops bindings = .ok () ∧ l.validate ops bindings = .ok () ∧
        r.validate ops bindings = .ok () := by
  simp only [validate, bind_unit_eq_ok_iff]

theorem validateOperators_node_eq_ok_iff {a : Atom ν} {l r : Expr ν} :
    (node a l r).validateOperators ops = .ok () ↔
      (∀ op, ops.operator? a = some op → op.fits l r = true) ∧
        l.validateOperators ops = .ok () ∧ r.validateOperators ops = .ok () := by
  cases h : ops.operator? a with
  | none => simp [validateOperators, h, bind_unit_eq_ok_iff]
  | some op =>
    simp [validateOperators, h, bind_unit_eq_ok_iff, validateOperands_eq_ok_iff, left, right, child]

theorem meaning_eq_operator_iff {a : Atom ν} {op : Operator} :
    ops.meaning bindings a = .operator op ↔ ops.operator? a = some op := by
  cases a with
  | number v => simp [OperatorSet.meaning, OperatorSet.operator?]
  | symbol name =>
    cases h : ops.find? name with
    | some op' => simp [OperatorSet.meaning, OperatorSet.operator?, h]
    | none =>
      cases hb : bindings.get? name with
      | none => simp [OperatorSet.meaning, OperatorSet.operator?, h, hb]
      | some v => simp [OperatorSet.meaning, OperatorSet.operator?, h, hb]

theorem meaning_eq_number_iff {a : Atom ν} {v : ν} :
    ops.meaning bindings a = .number v ↔ a = .number v := by
  cases a with
  | number w => simp [OperatorSet.meaning]
  | symbol name =>
    cases hf : ops.find? name with
    | some op => simp [OperatorSet.meaning, hf]
    | none => cases hb : bindings.get? name <;> simp [OperatorSet.meaning, hf, hb]

theorem meaning_eq_variable_iff {a : Atom ν} {v : ν} :
    ops.meaning bindings a = .variable v ↔
      ∃ name, a = .symbol name ∧ ops.find? name = none ∧ bindings.get? name = some v := by
  cases a with
  | number w => simp [OperatorSet.meaning]
  | symbol name =>
    cases hf : ops.find? name with
    | some op => simp [OperatorSet.meaning, hf]
    | none => cases hb : bindings.get? name <;> simp [OperatorSet.meaning, hf, hb]

theorem validateRoot_operator_eq_ok_iff {a : Atom ν} {l r : Expr ν} {op : Operator}
    (hop : ops.operator? a = some op) :
    (node a l r).validateRoot ops bindings = .ok () ↔ op.fits l r = true := by
  have hm : ops.meaning bindings a = .operator op := meaning_eq_operator_iff.2 hop
  rw [validateRoot, hm]
  exact validateOperands_eq_ok_iff

/-- A tree of sound structure passes the check that rewriting makes. -/
theorem validateOperators_of_validate {e : Expr ν} (h : e.validate ops bindings = .ok ()) :
    e.validateOperators ops = .ok () := by
  induction e with
  | empty => rfl
  | node a l r ihl ihr =>
    obtain ⟨hroot, hl, hr⟩ := validate_node_eq_ok_iff.1 h
    refine validateOperators_node_eq_ok_iff.2 ⟨?_, ihl hl, ihr hr⟩
    intro op hop
    have hm : ops.meaning bindings a = .operator op := meaning_eq_operator_iff.2 hop
    rw [validateRoot, hm] at hroot
    exact validateOperands_eq_ok_iff.1 hroot

end Structure

/-! ### The value -/

section Value

variable [Arithmetic ν] {ops : OperatorSet} {bindings : Bindings ν}

theorem isEmpty_of_compute {e : Expr ν} {v : ν} (h : e.compute ops bindings = .ok v) :
    e.isEmpty = false := by
  cases e with
  | empty => simp [compute] at h
  | node a l r => rfl

theorem compute_operator_eq_ok_iff {a : Atom ν} {l r : Expr ν} {op : Operator} {w : ν}
    (h : ops.meaning bindings a = .operator op) :
    (node a l r).compute ops bindings = .ok w ↔
      ∃ x, l.compute ops bindings = .ok x ∧
        match op.arity with
        | .unary => op.apply x Arithmetic.zero = w
        | .binary => ∃ y, r.compute ops bindings = .ok y ∧ op.apply x y = w := by
  -- An operand that has a value is there, so the search for it cannot be what fails.
  have hleft : ∀ {x}, l.compute ops bindings = .ok x → (node a l r).operand .left op.symbol = .ok l := fun hx =>
    operand_eq_ok _ _ _ (isEmpty_of_compute hx)
  have hright : ∀ {y}, r.compute ops bindings = .ok y → (node a l r).operand .right op.symbol = .ok r := fun hy =>
    operand_eq_ok _ _ _ (isEmpty_of_compute hy)
  cases ha : op.arity with
  | unary =>
    simp only [compute, h, ha, bind_eq_ok_iff]
    constructor
    · intro hrun
      obtain ⟨_, _, x, hx, hw⟩ := hrun
      exact ⟨x, hx, Except.ok.inj hw⟩
    · intro hvalue
      obtain ⟨x, hx, rfl⟩ := hvalue
      exact ⟨l, hleft hx, x, hx, rfl⟩
  | binary =>
    simp only [compute, h, ha, bind_eq_ok_iff]
    constructor
    · intro hrun
      obtain ⟨_, _, x, hx, _, _, y, hy, hw⟩ := hrun
      exact ⟨x, hx, y, hy, Except.ok.inj hw⟩
    · intro hvalue
      obtain ⟨x, hx, y, hy, rfl⟩ := hvalue
      exact ⟨l, hleft hx, x, hx, r, hright hy, y, hy, rfl⟩

/-- The value of an operator whose operands are there. -/
theorem compute_of_fits {a : Atom ν} {l r : Expr ν} {op : Operator} (h : ops.meaning bindings a = .operator op)
    (hfits : op.fits l r = true) :
    (node a l r).compute ops bindings = do
      let x ← l.compute ops bindings
      match op.arity with
      | .unary => return op.apply x Arithmetic.zero
      | .binary =>
        let y ← r.compute ops bindings
        return op.apply x y := by
  have hleft : (node a l r).operand .left op.symbol = .ok l := operand_left_of_fits hfits
  cases ha : op.arity with
  | unary =>
    simp only [compute, h, ha, hleft]
    rfl
  | binary =>
    have hright : (node a l r).operand .right op.symbol = .ok r := operand_right_of_fits ha hfits
    simp only [compute, h, ha, hleft, hright]
    rfl

/-- An atom that has a value, but is no operator, stands alone. -/
theorem children_empty_of_compute {a : Atom ν} {l r : Expr ν} {v : ν}
    (hop : ops.operator? a = none) (hroot : (node a l r).validateRoot ops bindings = .ok ())
    (hv : (node a l r).compute ops bindings = .ok v) : l = empty ∧ r = empty := by
  have leaf_of_ok : ∀ {f : ExprFault ν}, (if (node a l r).isLeaf then .ok () else .error f) =
      (.ok () : Except (ExprFault ν) Unit) → l = empty ∧ r = empty := by
    intro f hf
    cases hleaf : (node a l r).isLeaf with
    | false => simp [hleaf] at hf
    | true => simpa [isLeaf, isEmpty_iff] using hleaf
  cases hm : ops.meaning bindings a with
  | number w =>
    simp only [validateRoot, hm] at hroot
    exact leaf_of_ok hroot
  | «variable» w =>
    simp only [validateRoot, hm] at hroot
    exact leaf_of_ok hroot
  | operator op =>
    rw [meaning_eq_operator_iff.1 hm] at hop
    exact absurd hop (Option.some_ne_none op)
  | unresolved name => simp [compute, hm] at hv

theorem everywhere_of_atom {p : Expr ν → Prop} {a : Atom ν} {l r : Expr ν} {v : ν} (hp : p (node a empty empty))
    (hop : ops.operator? a = none) (hroot : (node a l r).validateRoot ops bindings = .ok ())
    (hv : (node a l r).compute ops bindings = .ok v) : (node a l r).Everywhere p := by
  obtain ⟨hl, hr⟩ := children_empty_of_compute hop hroot hv
  subst hl hr
  exact ⟨hp, trivial, trivial⟩

theorem evaluate_node (a : Atom ν) (l r : Expr ν) :
    (node a l r).evaluate ops bindings =
      (node a l r).validate ops bindings >>= fun _ => (node a l r).compute ops bindings := rfl

theorem evaluate_eq_ok_iff {e : Expr ν} {v : ν} :
    e.evaluate ops bindings = .ok v ↔
      e.validate ops bindings = .ok () ∧ e.compute ops bindings = .ok v := by
  cases e with
  | empty => simp [evaluate, check, nonempty, compute, bind, Except.bind]
  | node a l r => rw [evaluate_node, bind_unit_eq_ok_iff]

end Value

/-! ### Sweeps and passes -/

section Passes

theorem tree_sweep_node (rule : NodeRule ν) (a : Atom ν) (l r : Expr ν) :
    ((node a l r).sweep rule).tree =
      (rule a (l.sweep rule).tree (r.sweep rule).tree).getD
        (node a (l.sweep rule).tree (r.sweep rule).tree) := by
  simp only [sweep]
  cases rule a (l.sweep rule).tree (r.sweep rule).tree <;> rfl

variable [Arithmetic ν] {ops : OperatorSet}

theorem sweepPasses_singleton (p : Pass) (e : Expr ν) :
    e.sweepPasses ops [p] = e.sweepPass ops p := by
  simp [sweepPasses, Simplified.andThen, Simplified.unchanged]

end Passes

end Expr
end ExprCalculus
