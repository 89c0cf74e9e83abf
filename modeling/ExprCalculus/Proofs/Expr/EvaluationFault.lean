import ExprCalculus.Number.Binary64
import ExprCalculus.Proofs.Expr.FirstFault

/-!
# How an evaluation ends

An evaluation goes through the tree twice. Its check stops at the first node whose children do not suit it, and passes
over symbols that mean nothing. Only in a tree that passes does the first of these symbols count. So a defect comes
before every unbound symbol, wherever the two stand.
-/

namespace ExprCalculus

variable {ν : Type}

/-! ### One node -/

namespace View

/-- What is wrong with the children of a node. An operator in use has just its operands, and a number or a bound
variable has no children. Nothing is asked of a symbol that means nothing. -/
inductive Defect (ops : OperatorSet) (bindings : Bindings ν) (v : View ν) : ExprFault ν → Prop
  | operands {op : Operator} (hop : ops.operator? v.atom = some op) (hsuits : v.suits op = false) :
      Defect ops bindings v (.arityMismatch op v.degree)
  | number {c : ν} (hatom : v.atom = .number c) (hchildren : v.degree ≠ 0) :
      Defect ops bindings v (.leafWithChildren v.atom v.degree)
  | «variable» {name : String} (hatom : v.atom = .symbol name) (hfree : ops.find? name = none)
      (hbound : bindings.contains name = true) (hchildren : v.degree ≠ 0) :
      Defect ops bindings v (.leafWithChildren v.atom v.degree)

def IsDefective (ops : OperatorSet) (bindings : Bindings ν) (v : View ν) : Prop :=
  ∃ fault, v.Defect ops bindings fault

/-- The check of the structure at one node. -/
def validate (ops : OperatorSet) (bindings : Bindings ν) (v : View ν) : Except (ExprFault ν) Unit :=
  match ops.meaning bindings v.atom with
  | .operator op => if v.suits op then .ok () else .error (.arityMismatch op v.degree)
  | .number _ | .variable _ => if v.degree = 0 then .ok () else .error (.leafWithChildren v.atom v.degree)
  | .unresolved _ => .ok ()

/-- The test whether a node means anything. -/
def resolve (ops : OperatorSet) (bindings : Bindings ν) (v : View ν) : Except (ExprFault ν) Unit :=
  match ops.meaning bindings v.atom with
  | .unresolved name => .error (.unresolved name)
  | _ => .ok ()

variable {ops : OperatorSet} {bindings : Bindings ν} {v : View ν}

theorem validate_eq_error_iff {fault : ExprFault ν} :
    v.validate ops bindings = .error fault ↔ v.Defect ops bindings fault := by
  constructor
  · intro h
    cases hm : ops.meaning bindings v.atom with
    | operator op =>
      simp only [validate, hm] at h
      split at h
      · cases h
      · rename_i hsuits
        obtain rfl := Except.error.inj h
        exact .operands (Expr.meaning_eq_operator_iff.1 hm) (Bool.eq_false_iff.2 hsuits)
    | number c =>
      simp only [validate, hm] at h
      split at h
      · cases h
      · rename_i hchildren
        obtain rfl := Except.error.inj h
        exact .number (Expr.meaning_eq_number_iff.1 hm) hchildren
    | «variable» x =>
      obtain ⟨name, hatom, hfree, hbound⟩ := Expr.meaning_eq_variable_iff.1 hm
      simp only [validate, hm] at h
      split at h
      · cases h
      · rename_i hchildren
        obtain rfl := Except.error.inj h
        exact .variable hatom hfree (Option.isSome_of_eq_some hbound) hchildren
    | unresolved name =>
      simp only [validate, hm] at h
      cases h
  · intro h
    cases h with
    | operands hop hsuits =>
      have hm : ops.meaning bindings v.atom = _ := Expr.meaning_eq_operator_iff.2 hop
      simp only [validate, hm, hsuits, Bool.false_eq_true, if_false]
    | number hatom hchildren =>
      have hm : ops.meaning bindings v.atom = _ := Expr.meaning_eq_number_iff.2 hatom
      simp only [validate, hm, hchildren, if_false]
    | «variable» hatom hfree hbound hchildren =>
      obtain ⟨x, hx⟩ := Option.isSome_iff_exists.1 hbound
      have hm : ops.meaning bindings v.atom = _ := Expr.meaning_eq_variable_iff.2 ⟨_, hatom, hfree, hx⟩
      simp only [validate, hm, hchildren, if_false]

theorem validate_eq_ok_iff : v.validate ops bindings = .ok () ↔ ¬v.IsDefective ops bindings := by
  cases hv : v.validate ops bindings with
  | ok _ =>
    refine iff_of_true rfl ?_
    intro h
    obtain ⟨fault, hfault⟩ := h
    rw [validate_eq_error_iff.2 hfault] at hv
    cases hv
  | error fault => exact iff_of_false nofun (not_not_intro ⟨fault, validate_eq_error_iff.1 hv⟩)

theorem Defect.kind {fault : ExprFault ν} (h : v.Defect ops bindings fault) : fault.kind = .structuralDefect := by
  cases h <;> rfl

theorem resolve_eq_error_iff {fault : ExprFault ν} :
    v.resolve ops bindings = .error fault ↔
      ∃ name, ops.meaning bindings v.atom = .unresolved name ∧ fault = .unresolved name := by
  cases hm : ops.meaning bindings v.atom <;> simp [resolve, hm, eq_comm]

theorem resolve_eq_ok_iff :
    v.resolve ops bindings = .ok () ↔ ∀ name, ops.meaning bindings v.atom ≠ .unresolved name := by
  cases hm : ops.meaning bindings v.atom <;> simp [resolve, hm]

end View

namespace Expr

/-! ### The two passes over the nodes -/

section Passes

variable {ops : OperatorSet} {bindings : Bindings ν}

theorem degree_ofNode_eq_zero_iff (depth : Nat) {a : Atom ν} {l r : Expr ν} :
    (View.ofNode depth a l r).degree = 0 ↔ (node a l r).isLeaf = true := by
  cases l <;> cases r <;> simp [View.ofNode, View.degree, isLeaf, isEmpty]

theorem validate_ofNode (ops : OperatorSet) (bindings : Bindings ν) (depth : Nat) (a : Atom ν) (l r : Expr ν) :
    (View.ofNode depth a l r).validate ops bindings = (node a l r).validateRoot ops bindings := by
  have hatom : (View.ofNode depth a l r).atom = a := rfl
  have hdegree : (View.ofNode depth a l r).degree = (node a l r).degree := rfl
  have hchildren : (node a l r).left = l ∧ (node a l r).right = r := ⟨rfl, rfl⟩
  cases hm : ops.meaning bindings a <;>
    simp only [View.validate, validateRoot, validateOperands, hatom, hm, hdegree, suits_ofNode, hchildren,
      ← degree_ofNode_eq_zero_iff depth]

/-- The check of a tree is the check of its nodes in pre-order. -/
theorem validate_eq_forM (e : Expr ν) (depth : Nat) :
    e.validate ops bindings = forM (e.viewsFrom depth) (View.validate ops bindings) := by
  induction e generalizing depth with
  | empty => rfl
  | node a l r ihl ihr =>
    simp only [viewsFrom, List.forM_cons, List.forM_append, ← ihl, ← ihr, validate_ofNode]
    rfl

variable [Arithmetic ν]

/-- The faults of an evaluation after the check are those of looking at the nodes in pre-order for a meaning. -/
theorem map_compute_eq_forM {e : Expr ν} (hne : e.isEmpty = false) (hvalid : e.validate ops bindings = .ok ())
    (depth : Nat) :
    (e.compute ops bindings).map (fun _ => ()) = forM (e.viewsFrom depth) (View.resolve ops bindings) := by
  induction e generalizing depth with
  | empty => cases hne
  | node a l r ihl ihr =>
    obtain ⟨hroot, hlvalid, hrvalid⟩ := validate_node_eq_ok_iff.1 hvalid
    have hatom : (View.ofNode depth a l r).atom = a := rfl
    simp only [viewsFrom, List.forM_cons, List.forM_append]
    cases hop : ops.operator? a with
    | none =>
      cases hm : ops.meaning bindings a with
      | operator op =>
        rw [meaning_eq_operator_iff.1 hm] at hop
        cases hop
      | unresolved name =>
        simp only [compute, View.resolve, hatom, hm]
        rfl
      | number c =>
        have hv : (node a l r).compute ops bindings = .ok c := by simp only [compute, hm]
        obtain ⟨rfl, rfl⟩ := children_empty_of_compute hop hroot hv
        simp only [hv, View.resolve, hatom, hm]
        rfl
      | «variable» x =>
        have hv : (node a l r).compute ops bindings = .ok x := by simp only [compute, hm]
        obtain ⟨rfl, rfl⟩ := children_empty_of_compute hop hroot hv
        simp only [hv, View.resolve, hatom, hm]
        rfl
    | some op =>
      have hm : ops.meaning bindings a = .operator op := meaning_eq_operator_iff.2 hop
      have hfits : op.fits l r = true := (validateRoot_operator_eq_ok_iff hop).1 hroot
      have hl := ihl (Operator.isEmpty_left_of_fits hfits) hlvalid (depth + 1)
      rw [compute_of_fits hm hfits]
      simp only [View.resolve, hatom, hm, ← hl]
      cases harity : op.arity with
      | unary =>
        obtain ⟨_, rfl⟩ := (Operator.fits_unary harity).1 hfits
        cases l.compute ops bindings <;> rfl
      | binary =>
        have hr := ihr ((Operator.fits_binary harity).1 hfits).2 hrvalid (depth + 1)
        rw [← hr]
        cases l.compute ops bindings <;> cases r.compute ops bindings <;> rfl

end Passes

/-! ### Outcomes -/

/-- The tree is empty, or this is the defect of the first node in pre-order that has one, or no node has one and this
names the first node in pre-order that means nothing. -/
inductive EvaluationFault (ops : OperatorSet) (bindings : Bindings ν) (e : Expr ν) : ExprFault ν → Prop
  | emptyTree (he : e = empty) : EvaluationFault ops bindings e .emptyTree
  | defect {before after : List (View ν)} {v : View ν} {fault : ExprFault ν}
      (hviews : e.preorder = before ++ v :: after) (hbefore : ∀ w ∈ before, ¬w.IsDefective ops bindings)
      (hv : v.Defect ops bindings fault) : EvaluationFault ops bindings e fault
  | unresolved {before after : List (View ν)} {v : View ν} {name : String}
      (hsound : ∀ w ∈ e.preorder, ¬w.IsDefective ops bindings) (hviews : e.preorder = before ++ v :: after)
      (hbefore : ∀ w ∈ before, ∀ other, ops.meaning bindings w.atom ≠ .unresolved other)
      (hv : ops.meaning bindings v.atom = .unresolved name) : EvaluationFault ops bindings e (.unresolved name)

/-- The run ends with a fault of this kind. -/
def FailsWith {α : Type} (run : Except (ExprFault ν) α) (kind : FaultKind) : Prop :=
  ∃ fault, run = .error fault ∧ fault.kind = kind

section Outcomes

variable {ops : OperatorSet} {bindings : Bindings ν}

/-- The fault tells by its kind which of the three it is. -/
theorem EvaluationFault.kind_cases {e : Expr ν} {fault : ExprFault ν} (h : e.EvaluationFault ops bindings fault) :
    (e = empty ∧ fault.kind = .treeMisuse) ∨
      ((∃ v ∈ e.preorder, v.IsDefective ops bindings) ∧ fault.kind = .structuralDefect) ∨
      ((∀ v ∈ e.preorder, ¬v.IsDefective ops bindings) ∧ e.unbound ops bindings ≠ [] ∧
        fault.kind = .invalidInput) := by
  have hmem : ∀ {before after : List (View ν)} {v : View ν}, e.preorder = before ++ v :: after → v ∈ e.preorder := by
    intro before after v hviews
    rw [hviews]
    exact List.mem_append_right before List.mem_cons_self
  cases h with
  | emptyTree he => exact .inl ⟨he, rfl⟩
  | defect hviews hbefore hv => exact .inr (.inl ⟨⟨_, hmem hviews, _, hv⟩, hv.kind⟩)
  | unresolved hsound hviews hbefore hv =>
    exact .inr (.inr ⟨hsound, List.ne_nil_of_mem (mem_unbound_iff.2 ⟨_, hmem hviews, hv⟩), rfl⟩)

theorem validate_eq_ok_iff_views {e : Expr ν} :
    e.validate ops bindings = .ok () ↔ ∀ v ∈ e.preorder, ¬v.IsDefective ops bindings := by
  rw [validate_eq_forM e 0, preorder_eq_viewsFrom, forM_eq_ok_iff]
  simp only [View.validate_eq_ok_iff]

theorem validate_eq_error_iff_views {e : Expr ν} {fault : ExprFault ν} :
    e.validate ops bindings = .error fault ↔
      ∃ before v after, e.preorder = before ++ v :: after ∧ (∀ w ∈ before, ¬w.IsDefective ops bindings) ∧
        v.Defect ops bindings fault := by
  rw [validate_eq_forM e 0, preorder_eq_viewsFrom, forM_eq_error_iff]
  simp only [View.validate_eq_ok_iff, View.validate_eq_error_iff]

variable [Arithmetic ν]

theorem compute_eq_error_iff_views {e : Expr ν} (hne : e.isEmpty = false) (hvalid : e.validate ops bindings = .ok ())
    {fault : ExprFault ν} :
    e.compute ops bindings = .error fault ↔
      ∃ before v after, e.preorder = before ++ v :: after ∧
        (∀ w ∈ before, ∀ name, ops.meaning bindings w.atom ≠ .unresolved name) ∧
          ∃ name, ops.meaning bindings v.atom = .unresolved name ∧ fault = .unresolved name := by
  have hmap : e.compute ops bindings = .error fault ↔ (e.compute ops bindings).map (fun _ => ()) = .error fault := by
    cases e.compute ops bindings <;> simp [Except.map]
  rw [hmap, map_compute_eq_forM hne hvalid 0, preorder_eq_viewsFrom, forM_eq_error_iff]
  simp only [View.resolve_eq_ok_iff, View.resolve_eq_error_iff]

theorem evaluate_eq_error_iff {e : Expr ν} {fault : ExprFault ν} :
    e.evaluate ops bindings = .error fault ↔ e.EvaluationFault ops bindings fault := by
  cases e with
  | empty =>
    constructor
    · intro h
      obtain rfl := Except.error.inj h
      exact .emptyTree rfl
    · intro h
      cases h with
      | emptyTree he => rfl
      | defect hviews hbefore hv => simp [preorder_empty] at hviews
      | unresolved hsound hviews hbefore hv => simp [preorder_empty] at hviews
  | node a l r =>
    rw [evaluate_node, bind_eq_error_iff]
    constructor
    · intro h
      obtain hinvalid | ⟨_, hvalid, hcompute⟩ := h
      · obtain ⟨before, v, after, hviews, hbefore, hv⟩ := validate_eq_error_iff_views.1 hinvalid
        exact .defect hviews hbefore hv
      · obtain ⟨before, v, after, hviews, hbefore, name, hv, rfl⟩ := (compute_eq_error_iff_views rfl hvalid).1 hcompute
        exact .unresolved (validate_eq_ok_iff_views.1 hvalid) hviews hbefore hv
    · intro h
      cases h with
      | emptyTree he => cases he
      | defect hviews hbefore hv => exact .inl (validate_eq_error_iff_views.2 ⟨_, _, _, hviews, hbefore, hv⟩)
      | unresolved hsound hviews hbefore hv =>
        have hvalid := validate_eq_ok_iff_views.2 hsound
        exact .inr ⟨(), hvalid, (compute_eq_error_iff_views rfl hvalid).2 ⟨_, _, _, hviews, hbefore, _, hv, rfl⟩⟩

theorem exists_evaluate_iff_views {e : Expr ν} :
    (∃ x, e.evaluate ops bindings = .ok x) ↔
      e ≠ empty ∧ (∀ v ∈ e.preorder, ¬v.IsDefective ops bindings) ∧ e.unbound ops bindings = [] := by
  rw [exists_evaluate_iff, validate_eq_ok_iff_views, unbound_eq_nil_iff]
  refine and_congr_left fun _ => ?_
  rw [ne_eq, ← isEmpty_iff, Bool.not_eq_true]

theorem failsWith_treeMisuse_iff {e : Expr ν} : FailsWith (e.evaluate ops bindings) .treeMisuse ↔ e = empty := by
  constructor
  · intro h
    obtain ⟨fault, hrun, hkind⟩ := h
    rcases (evaluate_eq_error_iff.1 hrun).kind_cases with ⟨he, _⟩ | ⟨_, hother⟩ | ⟨_, _, hother⟩
    · exact he
    · cases hother.symm.trans hkind
    · cases hother.symm.trans hkind
  · intro he
    exact ⟨.emptyTree, evaluate_eq_error_iff.2 (.emptyTree he), rfl⟩

theorem failsWith_structuralDefect_iff {e : Expr ν} :
    FailsWith (e.evaluate ops bindings) .structuralDefect ↔ ∃ v ∈ e.preorder, v.IsDefective ops bindings := by
  constructor
  · intro h
    obtain ⟨fault, hrun, hkind⟩ := h
    rcases (evaluate_eq_error_iff.1 hrun).kind_cases with ⟨_, hother⟩ | ⟨hv, _⟩ | ⟨_, _, hother⟩
    · cases hother.symm.trans hkind
    · exact hv
    · cases hother.symm.trans hkind
  · intro h
    obtain ⟨v, hv, hdefective⟩ := h
    cases hrun : e.evaluate ops bindings with
    | ok x => exact absurd hdefective ((exists_evaluate_iff_views.1 ⟨x, hrun⟩).2.1 v hv)
    | error fault =>
      refine ⟨fault, rfl, ?_⟩
      rcases (evaluate_eq_error_iff.1 hrun).kind_cases with ⟨rfl, _⟩ | ⟨_, hkind⟩ | ⟨hsound, _⟩
      · simp [preorder_empty] at hv
      · exact hkind
      · exact absurd hdefective (hsound v hv)

theorem failsWith_invalidInput_iff {e : Expr ν} :
    FailsWith (e.evaluate ops bindings) .invalidInput ↔
      (∀ v ∈ e.preorder, ¬v.IsDefective ops bindings) ∧ e.unbound ops bindings ≠ [] := by
  constructor
  · intro h
    obtain ⟨fault, hrun, hkind⟩ := h
    rcases (evaluate_eq_error_iff.1 hrun).kind_cases with ⟨_, hother⟩ | ⟨_, hother⟩ | ⟨hsound, hunbound, _⟩
    · cases hother.symm.trans hkind
    · cases hother.symm.trans hkind
    · exact ⟨hsound, hunbound⟩
  · intro h
    obtain ⟨hsound, hunbound⟩ := h
    cases hrun : e.evaluate ops bindings with
    | ok x => exact absurd (exists_evaluate_iff_views.1 ⟨x, hrun⟩).2.2 hunbound
    | error fault =>
      refine ⟨fault, rfl, ?_⟩
      rcases (evaluate_eq_error_iff.1 hrun).kind_cases with ⟨rfl, _⟩ | ⟨⟨v, hv, hdefective⟩, _⟩ | ⟨_, _, hkind⟩
      · have hnil : (empty : Expr ν).unbound ops bindings = [] := unbound_eq_nil_iff.2 everyAtom_empty
        exact absurd hnil hunbound
      · exact absurd hdefective (hsound v hv)
      · exact hkind

/-- An evaluation of a tree ends with the misuse of an empty one, with the defect of the first node that has one, or,
where no node has one, with the name of the first symbol that is neither an operator nor bound. Otherwise it ends with
a value. The last part says what the operands of a node are in trees without a lone right child: as many children as its
operator has operands. -/
theorem evaluate_outcome (ops : OperatorSet) (bindings : Bindings ν) (e : Expr ν) :
    (FailsWith (e.evaluate ops bindings) .treeMisuse ↔ e = empty) ∧
      (FailsWith (e.evaluate ops bindings) .structuralDefect ↔ ∃ v ∈ e.preorder, v.IsDefective ops bindings) ∧
      (FailsWith (e.evaluate ops bindings) .invalidInput ↔
        (∀ v ∈ e.preorder, ¬v.IsDefective ops bindings) ∧ e.unbound ops bindings ≠ []) ∧
      ((∃ x, e.evaluate ops bindings = .ok x) ↔
        e ≠ empty ∧ (∀ v ∈ e.preorder, ¬v.IsDefective ops bindings) ∧ e.unbound ops bindings = []) ∧
      (∀ fault, e.evaluate ops bindings = .error fault ↔ e.EvaluationFault ops bindings fault) ∧
      (e.Shapely → ∀ v ∈ e.preorder, ∀ op : Operator, v.suits op = true ↔ v.degree = op.arity.operands) := by
  refine ⟨failsWith_treeMisuse_iff, failsWith_structuralDefect_iff, failsWith_invalidInput_iff,
    exists_evaluate_iff_views, fun fault => evaluate_eq_error_iff, ?_⟩
  intro hshape v hv op
  rw [preorder_eq_viewsFrom] at hv
  exact View.suits_iff_degree (left_of_right_of_shapely hshape v hv) op

/-- The unbound name comes first, but the literal that carries a child is reported. -/
def misplaced : Expr Float :=
  .node (.symbol "*") (.symbol "rate") (.node (.number 2) (.symbol "x") .empty)

theorem evaluate_outcome_misplaced :
    misplaced.Shapely ∧ misplaced.evaluate .full ∅ = .error (.leafWithChildren (.number 2) 1) ∧
      ∀ v ∈ misplaced.preorder, ∀ op : Operator, v.suits op = true ↔ v.degree = op.arity.operands := by
  have hshape : misplaced.Shapely := by
    refine ⟨fun h => ?_, ⟨fun _ => rfl, trivial, trivial⟩, ⟨fun _ => rfl, ⟨fun _ => rfl, trivial, trivial⟩, trivial⟩⟩
    cases h
  obtain ⟨_, _, _, _, hfault, hsuits⟩ := evaluate_outcome .full ∅ misplaced
  refine ⟨hshape, ?_, hsuits hshape⟩
  have hviews : misplaced.preorder =
      [⟨0, .symbol "*", true, true⟩, ⟨1, .symbol "rate", false, false⟩] ++
        ⟨1, .number 2, true, false⟩ :: [⟨2, .symbol "x", false, false⟩] := preorder_eq_viewsFrom misplaced
  refine (hfault _).2 (.defect hviews ?_ (.number rfl (by decide)))
  intro w hw
  simp only [List.mem_cons, List.not_mem_nil, or_false] at hw
  rcases hw with rfl | rfl
  · exact View.validate_eq_ok_iff.1 rfl
  · exact View.validate_eq_ok_iff.1 rfl

end Outcomes

end Expr
end ExprCalculus
