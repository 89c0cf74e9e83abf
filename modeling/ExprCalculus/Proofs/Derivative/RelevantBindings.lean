import ExprCalculus.Proofs.Derivative.Slope

/-!
# The bindings that matter

Of all bindings a value depends on those of the variables of the tree, and a derivative not even on their values: it
depends only on which of these variables, and of the one differentiated by, are bound. So a derivative that was made
at one point is the derivative at every other one.
-/

namespace ExprCalculus

variable {ν : Type}

/-- The same meaning, the values of variables apart. -/
inductive Meaning.SameRole : Meaning ν → Meaning ν → Prop
  | same (m : Meaning ν) : SameRole m m
  | values (v w : ν) : SameRole (.variable v) (.variable w)

section Meanings

variable {ops : OperatorSet} {b c : Bindings ν} {a : Atom ν}

theorem OperatorSet.meaning_congr
    (h : ∀ name, a.symbol? = some name → ops.find? name = none → b.get? name = c.get? name) :
    ops.meaning b a = ops.meaning c a := by
  cases a with
  | number v => rfl
  | symbol name =>
    cases hfind : ops.find? name with
    | some op => simp only [meaning, hfind]
    | none => simp only [meaning, hfind, h name rfl hfind]

theorem OperatorSet.sameRole_meaning
    (h : ∀ name, a.symbol? = some name → ops.find? name = none → b.contains name = c.contains name) :
    (ops.meaning b a).SameRole (ops.meaning c a) := by
  cases a with
  | number v => exact .same _
  | symbol name =>
    cases hfind : ops.find? name with
    | some op =>
      simp only [meaning, hfind]
      exact .same _
    | none =>
      have hbound := h name rfl hfind
      simp only [Dictionary.contains] at hbound
      cases hb : b.get? name with
      | none =>
        rw [hb, Option.isSome_none, eq_comm, Option.isSome_eq_false_iff, Option.isNone_iff_eq_none] at hbound
        simp only [meaning, hfind, hb, hbound]
        exact .same _
      | some v =>
        rw [hb, Option.isSome_some, eq_comm, Option.isSome_iff_exists] at hbound
        obtain ⟨w, hc⟩ := hbound
        simp only [meaning, hfind, hb, hc]
        exact .values v w

end Meanings

namespace Expr

variable {ops : OperatorSet} {b c : Bindings ν}

theorem everyAtom_of_variables {p : String → Prop} {e : Expr ν} (h : ∀ name ∈ e.«variables» ops, p name) :
    e.EveryAtom fun a => ∀ name, a.symbol? = some name → ops.find? name = none → p name := by
  have hviews : ∀ view ∈ e.viewsFrom 0, ∀ name, view.atom.symbol? = some name → ops.find? name = none → p name := by
    intro view hview name hsymbol hfree
    rw [← preorder_eq_viewsFrom] at hview
    exact h name (mem_variables.2 ⟨mem_symbols.2 ⟨view, hview, hsymbol⟩, hfree⟩)
  exact forall_mem_viewsFrom_iff.1 hviews

/-! ### Trees whose names have the same roles -/

/-- The two bindings give every atom of the tree the same role. -/
def SameRoles (ops : OperatorSet) (b c : Bindings ν) (e : Expr ν) : Prop :=
  e.EveryAtom fun a => (ops.meaning b a).SameRole (ops.meaning c a)

theorem SameRoles.validateRoot {a : Atom ν} (h : (ops.meaning b a).SameRole (ops.meaning c a)) (l r : Expr ν) :
    (node a l r).validateRoot ops b = (node a l r).validateRoot ops c := by
  simp only [Expr.validateRoot]
  generalize ops.meaning b a = m, ops.meaning c a = m' at h ⊢
  cases h with
  | same m => rfl
  | values v w => rfl

theorem SameRoles.validate {e : Expr ν} (h : e.SameRoles ops b c) : e.validate ops b = e.validate ops c := by
  induction e with
  | empty => rfl
  | node a l r ihl ihr =>
    obtain ⟨ha, hl, hr⟩ := everyAtom_node.1 h
    simp only [Expr.validate, SameRoles.validateRoot ha, ihl hl, ihr hr]

variable [Arithmetic ν]

theorem SameRoles.derive {e : Expr ν} (h : e.SameRoles ops b c) (x : String) :
    e.derive ops b x = e.derive ops c x := by
  induction e with
  | empty => rfl
  | node a u v ihu ihv =>
    obtain ⟨ha, hu, hv⟩ := everyAtom_node.1 h
    simp only [Expr.derive, ihu hu, ihv hv]
    generalize ops.meaning b a = m, ops.meaning c a = m' at ha ⊢
    cases ha with
    | same m => rfl
    | values v w => rfl

theorem compute_congr {e : Expr ν} (h : e.EveryAtom fun a => ops.meaning b a = ops.meaning c a) :
    e.compute ops b = e.compute ops c := by
  induction e with
  | empty => rfl
  | node a l r ihl ihr =>
    obtain ⟨ha, hl, hr⟩ := everyAtom_node.1 h
    simp only [compute, ha, ihl hl, ihr hr]

/-! ### Runs -/

theorem evaluate_congr {e : Expr ν} (h : ∀ name ∈ e.«variables» ops, b.get? name = c.get? name) :
    e.evaluate ops b = e.evaluate ops c := by
  have hmeaning : e.EveryAtom fun a => ops.meaning b a = ops.meaning c a :=
    (everyAtom_of_variables h).imp fun _ => OperatorSet.meaning_congr
  have hroles : e.SameRoles ops b c := hmeaning.imp fun _ ha => ha ▸ .same _
  cases e with
  | empty => rfl
  | node a l r => rw [evaluate_node, evaluate_node, hroles.validate, compute_congr hmeaning]

theorem differentiate_congr {e : Expr ν} {x : String}
    (h : ∀ name ∈ e.«variables» ops, b.contains name = c.contains name) (hx : b.contains x = c.contains x) :
    e.differentiate ops b x = e.differentiate ops c x := by
  have hroles : e.SameRoles ops b c := (everyAtom_of_variables h).imp fun _ => OperatorSet.sameRole_meaning
  cases e with
  | empty => rfl
  | node a l r => rw [differentiate_node, differentiate_node, hx, hroles.validate, hroles.derive x]

/-- The value of a tree depends only on the values of its variables. The derivative depends only on which of them are
bound, and on whether the one differentiated by is. So wherever the same of these names are bound, the derivative is
that at every other such point, and has the slope of the tree there as its value. -/
theorem outcome_of_relevant_bindings (ops : OperatorSet) (b c : Bindings ν) (x : String) (e : Expr ν) :
    ((∀ name ∈ e.«variables» ops, b.get? name = c.get? name) → e.evaluate ops b = e.evaluate ops c) ∧
      ((∀ name ∈ x :: e.«variables» ops, b.contains name = c.contains name) →
        e.differentiate ops b x = e.differentiate ops c x ∧
          ∀ d, e.differentiate ops b x = .ok d →
            ∃ w, e.slope? ops c x = some w ∧ d.evaluate ops c = .ok w) := by
  refine ⟨evaluate_congr, ?_⟩
  intro h
  obtain ⟨hx, hvariables⟩ := List.forall_mem_cons.1 h
  have hsame := differentiate_congr hvariables hx
  refine ⟨hsame, ?_⟩
  intro d hd
  rw [hsame] at hd
  obtain ⟨⟨_, _, hvalid⟩, hderive⟩ := differentiate_eq_ok_iff.1 hd
  obtain ⟨v, w, hrun⟩ := ascends_of_derived (derived_of_derive hderive) hvalid
  exact ⟨w, hrun.slope, hrun.derivative⟩

/-- The same point with two more bindings, one of them under an operator's symbol. -/
def swingAmongOthers : Bindings Float := ⟨[("sin", 4), ("y", 0.5), ("z", 7), ("x", 2)]⟩

def swingElsewhere : Bindings Float := ⟨[("y", -1), ("x", 3)]⟩

theorem eq_of_mem_variables_swing {name : String} (h : name ∈ swing.«variables» .full) : name = "x" ∨ name = "y" := by
  have hsymbols : swing.preorder.filterMap (fun view => view.atom.symbol?) =
      ["/", "cos", "*", "x", "y", "-", "^", "x", "y"] := by
    rw [preorder_eq_viewsFrom]
    rfl
  have hnames : ∀ name ∈ ["/", "cos", "*", "x", "y", "-", "^", "x", "y"],
      OperatorSet.full.find? name = none → name = "x" ∨ name = "y" := by decide
  obtain ⟨hmem, hfree⟩ := mem_variables.1 h
  rw [symbols, List.mem_mergeSort, List.mem_eraseDups, hsymbols] at hmem
  exact hnames name hmem hfree

theorem outcome_of_relevant_bindings_swing :
    ((∀ name ∈ swing.«variables» .full, swingBindings.get? name = swingAmongOthers.get? name) ∧
        swing.evaluate .full swingBindings = swing.evaluate .full swingAmongOthers) ∧
      (∀ name ∈ "x" :: swing.«variables» .full, swingBindings.contains name = swingElsewhere.contains name) ∧
        ∃ d, swing.differentiate .full swingBindings "x" = .ok d ∧ swing.differentiate .full swingElsewhere "x" = .ok d ∧
          ∃ w, swing.slope? .full swingElsewhere "x" = some w ∧ d.evaluate .full swingElsewhere = .ok w := by
  have hvalues : ∀ name ∈ swing.«variables» .full, swingBindings.get? name = swingAmongOthers.get? name := by
    intro name hname
    rcases eq_of_mem_variables_swing hname with rfl | rfl
    · rfl
    · rfl
  have hbound : ∀ name ∈ "x" :: swing.«variables» .full, swingBindings.contains name = swingElsewhere.contains name := by
    refine List.forall_mem_cons.2 ⟨rfl, ?_⟩
    intro name hname
    rcases eq_of_mem_variables_swing hname with rfl | rfl
    · rfl
    · rfl
  obtain ⟨hsame, hslope⟩ := (outcome_of_relevant_bindings .full swingBindings swingElsewhere "x" swing).2 hbound
  refine ⟨⟨hvalues, (outcome_of_relevant_bindings .full swingBindings swingAmongOthers "x" swing).1 hvalues⟩, hbound, ?_⟩
  exact ⟨_, rfl, hsame.symm, hslope _ rfl⟩

end Expr
end ExprCalculus
