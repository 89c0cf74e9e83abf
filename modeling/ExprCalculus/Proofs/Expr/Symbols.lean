import ExprCalculus.Expr.Preorder
import ExprCalculus.Proofs.Expr.Evaluation

/-!
# The nodes that a traversal sees

A traversal in pre-order hands out the views of all nodes of a tree, just as they follow from the tree's shape.
So what is read off the views is a property of the tree: no symbol is unbound if and only if every atom
has a meaning, and a tree that has a value has no unbound symbol.
-/

namespace ExprCalculus

variable {ν : Type}

/-- The views of all nodes in pre-order, the root at the given depth. -/
def Expr.viewsFrom (depth : Nat) : Expr ν → List (View ν)
  | empty => []
  | node a l r => View.ofNode depth a l r :: (l.viewsFrom (depth + 1) ++ r.viewsFrom (depth + 1))

namespace Traversal

/-- The views of all nodes of the pending subtrees. -/
def views (pending : List (Expr ν × Nat)) : List (View ν) :=
  pending.flatMap fun entry => entry.1.viewsFrom entry.2

theorem views_of_step_none {pending : List (Expr ν × Nat)} (h : step pending = none) :
    views pending = [] := by
  induction pending with
  | nil => rfl
  | cons entry rest ih =>
    obtain ⟨e, depth⟩ := entry
    cases e with
    | empty =>
      have hrest : views rest = [] := ih (by simpa [step] using h)
      exact hrest
    | node a l r => simp [step] at h

theorem views_of_step {pending rest : List (Expr ν × Nat)} {view : View ν}
    (h : step pending = some (view, rest)) : views pending = view :: views rest := by
  induction pending with
  | nil => simp [step] at h
  | cons entry tail ih =>
    obtain ⟨e, depth⟩ := entry
    cases e with
    | empty =>
      have htail : views tail = view :: views rest := ih (by simpa [step] using h)
      exact htail
    | node a l r =>
      simp only [step, Option.some.injEq, Prod.mk.injEq] at h
      obtain ⟨rfl, rfl⟩ := h
      simp [views, Expr.viewsFrom]

theorem toList_eq_views (p : Traversal ν) : p.toList = views p.pending := by
  -- The recursion of the traversal: each step sees one node of the pending subtrees.
  induction p using toList.induct with
  | case1 p hnone =>
    rw [toList]
    have hstep : step p.pending = none := by simpa [next?] using hnone
    split
    · exact (views_of_step_none hstep).symm
    · rename_i hsome
      rw [hnone] at hsome
      cases hsome
  | case2 p view q hsome ih =>
    rw [toList]
    split
    · rename_i hnone
      rw [hnone] at hsome
      cases hsome
    · rename_i view' q' hsome'
      obtain ⟨rfl, rfl⟩ := Prod.mk.inj (Option.some.inj (hsome'.symm.trans hsome))
      obtain ⟨⟨v, rest⟩, hstep, heq⟩ := Option.map_eq_some_iff.1 hsome
      obtain ⟨rfl, rfl⟩ := Prod.mk.inj heq
      rw [ih, views_of_step hstep]

end Traversal

namespace Expr

theorem preorder_eq_viewsFrom (e : Expr ν) : e.preorder = e.viewsFrom 0 := by
  rw [preorder, Traversal.toList_eq_views]
  simp [Traversal.views, Traversal.ofExpr]

theorem preorder_empty : (empty : Expr ν).preorder = [] := preorder_eq_viewsFrom empty

theorem forall_mem_viewsFrom_iff {p : Atom ν → Prop} {e : Expr ν} {depth : Nat} :
    (∀ view ∈ e.viewsFrom depth, p view.atom) ↔ e.EveryAtom p := by
  induction e generalizing depth with
  | empty => simp [viewsFrom]
  | node a l r ihl ihr =>
    simp only [viewsFrom, List.forall_mem_cons, List.forall_mem_append, ihl, ihr, everyAtom_node, View.ofNode]

/-- A name is missing among the symbols if no atom of the tree is that symbol. -/
theorem not_mem_symbols_iff {e : Expr ν} {name : String} :
    name ∉ e.symbols ↔ e.EveryAtom fun a => a.symbol? ≠ some name := by
  rw [mem_symbols, preorder_eq_viewsFrom, not_exists]
  simp only [not_and]
  exact forall_mem_viewsFrom_iff (p := fun a => a.symbol? ≠ some name)

/-! ### Unbound symbols -/

section Unbound

variable {ops : OperatorSet} {bindings : Bindings ν}

theorem meaning_eq_unresolved_iff {a : Atom ν} {name : String} :
    ops.meaning bindings a = .unresolved name ↔
      a = .symbol name ∧ ops.find? name = none ∧ bindings.get? name = none := by
  cases a with
  | number w => simp [OperatorSet.meaning]
  | symbol s =>
    cases hf : ops.find? s with
    | some op =>
      simp only [OperatorSet.meaning, hf, reduceCtorEq, Atom.symbol.injEq, false_iff]
      rintro ⟨rfl, hnone, _⟩
      rw [hf] at hnone
      cases hnone
    | none =>
      cases hb : bindings.get? s with
      | some v =>
        simp only [OperatorSet.meaning, hf, hb, reduceCtorEq, Atom.symbol.injEq, false_iff]
        rintro ⟨rfl, _, hnone⟩
        rw [hb] at hnone
        cases hnone
      | none =>
        simp only [OperatorSet.meaning, hf, hb, Meaning.unresolved.injEq, Atom.symbol.injEq]
        constructor
        · rintro rfl
          exact ⟨rfl, hf, hb⟩
        · intro h
          exact h.1

/-- The unbound symbols are those of the atoms that mean nothing. -/
theorem mem_unbound_iff {e : Expr ν} {name : String} :
    name ∈ e.unbound ops bindings ↔
      ∃ view ∈ e.preorder, ops.meaning bindings view.atom = .unresolved name := by
  rw [mem_unbound, mem_variables, mem_symbols]
  constructor
  · rintro ⟨⟨⟨view, hview, hsymbol⟩, hfree⟩, hnone⟩
    refine ⟨view, hview, meaning_eq_unresolved_iff.2 ⟨?_, hfree, hnone⟩⟩
    cases ha : view.atom with
    | number w => simp [ha, Atom.symbol?] at hsymbol
    | symbol s => simpa [ha, Atom.symbol?] using hsymbol
  · rintro ⟨view, hview, hmeaning⟩
    obtain ⟨ha, hfree, hnone⟩ := meaning_eq_unresolved_iff.1 hmeaning
    exact ⟨⟨⟨view, hview, by rw [ha]; rfl⟩, hfree⟩, hnone⟩

/-- Every atom of the tree is a number, an operator in use or a bound name. -/
def Resolved (ops : OperatorSet) (bindings : Bindings ν) (e : Expr ν) : Prop :=
  e.EveryAtom fun a => ∀ name, ops.meaning bindings a ≠ .unresolved name

theorem unbound_eq_nil_iff {e : Expr ν} : e.unbound ops bindings = [] ↔ e.Resolved ops bindings := by
  rw [List.eq_nil_iff_forall_not_mem]
  simp only [mem_unbound_iff, preorder_eq_viewsFrom]
  constructor
  · intro h
    have hviews : ∀ view ∈ e.viewsFrom 0, ∀ name, ops.meaning bindings view.atom ≠ .unresolved name := by
      intro view hview name hmeaning
      exact h name ⟨view, hview, hmeaning⟩
    exact forall_mem_viewsFrom_iff.1 hviews
  · rintro h name ⟨view, hview, hmeaning⟩
    exact forall_mem_viewsFrom_iff.2 h view hview name hmeaning

theorem resolved_of_evaluate [Arithmetic ν] {e : Expr ν} {v : ν} (h : e.evaluate ops bindings = .ok v) :
    e.Resolved ops bindings := by
  induction e generalizing v with
  | empty => trivial
  | node a l r ihl ihr =>
    obtain ⟨hvalid, hv⟩ := evaluate_eq_ok_iff.1 h
    obtain ⟨hroot, hlvalid, hrvalid⟩ := validate_node_eq_ok_iff.1 hvalid
    have hatom : ∀ a', (node a l r).atom? = some a' → ∀ name, ops.meaning bindings a' ≠ .unresolved name := by
      rintro a' heq name hmeaning
      obtain rfl := Option.some.inj heq
      simp [compute, hmeaning] at hv
    cases hop : ops.operator? a with
    | none =>
      obtain ⟨rfl, rfl⟩ := children_empty_of_compute hop hroot hv
      exact ⟨hatom, trivial, trivial⟩
    | some op =>
      have hm : ops.meaning bindings a = .operator op := meaning_eq_operator_iff.2 hop
      obtain ⟨x, hx, hright⟩ := (compute_operator_eq_ok_iff hm).1 hv
      have hl : l.Resolved ops bindings := ihl (evaluate_eq_ok_iff.2 ⟨hlvalid, hx⟩)
      have hfits : op.fits l r = true := by
        rw [validateRoot, hm] at hroot
        exact validateOperands_eq_ok_iff.1 hroot
      cases harity : op.arity with
      | unary =>
        obtain rfl := ((Operator.fits_unary harity).1 hfits).2
        exact ⟨hatom, hl, trivial⟩
      | binary =>
        simp only [harity] at hright
        obtain ⟨y, hy, _⟩ := hright
        exact ⟨hatom, hl, ihr (evaluate_eq_ok_iff.2 ⟨hrvalid, hy⟩)⟩

theorem exists_compute [Arithmetic ν] {e : Expr ν} (hne : e.isEmpty = false)
    (hvalid : e.validate ops bindings = .ok ()) (h : e.Resolved ops bindings) :
    ∃ v, e.compute ops bindings = .ok v := by
  induction e with
  | empty => simp [isEmpty] at hne
  | node a l r ihl ihr =>
    obtain ⟨hroot, hlvalid, hrvalid⟩ := validate_node_eq_ok_iff.1 hvalid
    obtain ⟨hatom, hl, hr⟩ := everyAtom_node.1 h
    cases hm : ops.meaning bindings a with
    | number v => exact ⟨v, by simp only [compute, hm]⟩
    | «variable» v => exact ⟨v, by simp only [compute, hm]⟩
    | unresolved name => exact absurd hm (hatom name)
    | operator op =>
      have hfits : op.fits l r = true := (validateRoot_operator_eq_ok_iff (meaning_eq_operator_iff.1 hm)).1 hroot
      obtain ⟨x, hx⟩ := ihl (Operator.isEmpty_left_of_fits hfits) hlvalid hl
      cases harity : op.arity with
      | unary =>
        refine ⟨op.apply x Arithmetic.zero, (compute_operator_eq_ok_iff hm).2 ⟨x, hx, ?_⟩⟩
        simp only [harity]
      | binary =>
        obtain ⟨y, hy⟩ := ihr ((Operator.fits_binary harity).1 hfits).2 hrvalid hr
        refine ⟨op.apply x y, (compute_operator_eq_ok_iff hm).2 ⟨x, hx, ?_⟩⟩
        simp only [harity]
        exact ⟨y, hy, rfl⟩

/-- A tree has a value just where it is not empty, its structure is sound and no symbol in it is unbound. -/
theorem exists_evaluate_iff [Arithmetic ν] {e : Expr ν} :
    (∃ v, e.evaluate ops bindings = .ok v) ↔
      e.isEmpty = false ∧ e.validate ops bindings = .ok () ∧ e.Resolved ops bindings := by
  constructor
  · intro hvalue
    obtain ⟨v, hv⟩ := hvalue
    obtain ⟨hvalid, hcompute⟩ := evaluate_eq_ok_iff.1 hv
    exact ⟨isEmpty_of_compute hcompute, hvalid, resolved_of_evaluate hv⟩
  · intro h
    obtain ⟨hne, hvalid, hresolved⟩ := h
    obtain ⟨v, hv⟩ := exists_compute hne hvalid hresolved
    exact ⟨v, evaluate_eq_ok_iff.2 ⟨hvalid, hv⟩⟩

end Unbound

end Expr
end ExprCalculus
