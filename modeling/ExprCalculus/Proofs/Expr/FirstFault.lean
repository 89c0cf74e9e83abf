import ExprCalculus.Proofs.Expr.Symbols
import ExprCalculus.Simplify.Optimization

/-!
# The first fault in pre-order

A check that goes through a tree and stops at the first node that is not in order finds the node that comes
first in a traversal. `Expr.OperandFault` says so of the check that stands before all rewriting: it speaks of views
only, and `checkOperators_eq_error_iff` is its agreement with the check.
-/

namespace ExprCalculus

/-! ### Checks of lists -/

section Lists

variable {α ε : Type} {f : α → Except ε Unit}

theorem forM_eq_error_of_first {x : α} {fault : ε} (hx : f x = .error fault) (before after : List α)
    (hbefore : ∀ y ∈ before, f y = .ok ()) : forM (before ++ x :: after) f = .error fault := by
  induction before with
  | nil => simp [hx, bind, Except.bind]
  | cons y before ih =>
    have hy : f y = .ok () := hbefore y List.mem_cons_self
    have hrest := ih fun z hz => hbefore z (List.mem_cons_of_mem y hz)
    simp only [List.cons_append, List.forM_cons, hy, hrest]
    rfl

theorem first_of_forM_eq_error {l : List α} {fault : ε} (h : forM l f = .error fault) :
    ∃ before x after, l = before ++ x :: after ∧ (∀ y ∈ before, f y = .ok ()) ∧ f x = .error fault := by
  induction l with
  | nil => simp [pure, Except.pure] at h
  | cons x l ih =>
    cases hx : f x with
    | error fault' =>
      simp only [List.forM_cons, hx, bind, Except.bind] at h
      exact ⟨[], x, l, rfl, by simp, by rw [hx, Except.error.inj h]⟩
    | ok _ =>
      simp only [List.forM_cons, hx, bind, Except.bind] at h
      obtain ⟨before, y, after, rfl, hbefore, hy⟩ := ih h
      refine ⟨x :: before, y, after, rfl, ?_, hy⟩
      intro z hz
      rcases List.mem_cons.1 hz with rfl | hz
      · exact hx
      · exact hbefore z hz

theorem forM_eq_error_iff {l : List α} {fault : ε} :
    forM l f = .error fault ↔
      ∃ before x after, l = before ++ x :: after ∧ (∀ y ∈ before, f y = .ok ()) ∧ f x = .error fault := by
  refine ⟨first_of_forM_eq_error, ?_⟩
  intro h
  obtain ⟨before, x, after, rfl, hbefore, hx⟩ := h
  exact forM_eq_error_of_first hx before after hbefore

theorem forM_eq_ok_iff {l : List α} : forM l f = .ok () ↔ ∀ x ∈ l, f x = .ok () := by
  induction l with
  | nil => simp [pure, Except.pure]
  | cons x l ih => rw [List.forM_cons, bind_unit_eq_ok_iff, ih, List.forall_mem_cons]

end Lists

variable {ν : Type}

/-! ### What a view tells of the children -/

namespace View

def degree (v : View ν) : Nat := v.hasLeft.toNat + v.hasRight.toNat

/-- The node has just the operands of an operator, a single one on the left. -/
def suits (v : View ν) (op : Operator) : Bool :=
  match op.arity with
  | .unary => v.hasLeft && !v.hasRight
  | .binary => v.hasLeft && v.hasRight

/-- Where no right child stands without a left one, the operands are right if their number is. -/
theorem suits_iff_degree {v : View ν} (h : v.hasRight = true → v.hasLeft = true) (op : Operator) :
    v.suits op = true ↔ v.degree = op.arity.operands := by
  obtain ⟨depth, a, hasLeft, hasRight⟩ := v
  cases harity : op.arity <;> cases hasLeft <;> cases hasRight <;>
    simp_all [suits, degree, Arity.operands]

def validateOperands (ops : OperatorSet) (v : View ν) : Except (ExprFault ν) Unit :=
  match ops.operator? v.atom with
  | some op => if v.suits op then .ok () else .error (.arityMismatch op v.degree)
  | none => .ok ()

theorem validateOperands_eq_ok_iff {ops : OperatorSet} {v : View ν} :
    v.validateOperands ops = .ok () ↔ ∀ op, ops.operator? v.atom = some op → v.suits op = true := by
  cases hop : ops.operator? v.atom with
  | none => simp [validateOperands, hop]
  | some op => cases hsuits : v.suits op <;> simp [validateOperands, hop, hsuits]

theorem validateOperands_eq_error_iff {ops : OperatorSet} {v : View ν} {fault : ExprFault ν} :
    v.validateOperands ops = .error fault ↔
      ∃ op, ops.operator? v.atom = some op ∧ v.suits op = false ∧ fault = .arityMismatch op v.degree := by
  cases hop : ops.operator? v.atom with
  | none => simp [validateOperands, hop]
  | some op =>
    cases hsuits : v.suits op with
    | true => simp [validateOperands, hop, hsuits]
    | false => simpa [validateOperands, hop, hsuits] using eq_comm

end View

namespace Expr

theorem left_of_right_of_shapely {e : Expr ν} (h : e.Shapely) {depth : Nat} :
    ∀ v ∈ e.viewsFrom depth, v.hasRight = true → v.hasLeft = true := by
  induction e generalizing depth with
  | empty => simp [viewsFrom]
  | node a l r ihl ihr =>
    obtain ⟨hroot, hl, hr⟩ := h
    intro v hv
    rcases List.mem_cons.1 hv with rfl | hv
    · cases hempty : l.isEmpty <;> simp_all [View.ofNode]
    · rcases List.mem_append.1 hv with hv | hv
      · exact ihl hl v hv
      · exact ihr hr v hv

/-! ### The check of the operators -/

variable {ops : OperatorSet}

theorem suits_ofNode (depth : Nat) (a : Atom ν) (l r : Expr ν) (op : Operator) :
    (View.ofNode depth a l r).suits op = op.fits l r := by
  cases harity : op.arity <;> simp [View.suits, View.ofNode, Operator.fits, harity]

theorem validateOperands_view (ops : OperatorSet) (depth : Nat) (a : Atom ν) (l r : Expr ν) :
    (View.ofNode depth a l r).validateOperands ops =
      match ops.operator? a with
      | some op => (node a l r).validateOperands op
      | none => .ok () := by
  cases hop : ops.operator? a with
  | none => simp [View.validateOperands, View.ofNode, hop]
  | some op =>
    have hview : (View.ofNode depth a l r).validateOperands ops =
        if op.fits l r then .ok () else .error (.arityMismatch op (View.ofNode depth a l r).degree) := by
      rw [← suits_ofNode depth a, View.validateOperands]
      simp only [View.ofNode, hop]
    exact hview

theorem validateOperators_eq_forM (e : Expr ν) (depth : Nat) :
    e.validateOperators ops = forM (e.viewsFrom depth) (View.validateOperands ops) := by
  induction e generalizing depth with
  | empty => rfl
  | node a l r ihl ihr =>
    simp only [viewsFrom, List.forM_cons, List.forM_append, ← ihl, ← ihr, validateOperands_view]
    cases hop : ops.operator? a with
    | none =>
      simp only [validateOperators, hop]
      rfl
    | some op => simp only [validateOperators, hop]

/-- The tree is empty, or this is the fault of the first node in pre-order that holds an operator in use and
has not just its operands. -/
def OperandFault (ops : OperatorSet) (e : Expr ν) (fault : ExprFault ν) : Prop :=
  (e = empty ∧ fault = .emptyTree) ∨
    ∃ before v after op, e.preorder = before ++ v :: after ∧
      (∀ w ∈ before, ∀ op, ops.operator? w.atom = some op → w.suits op = true) ∧
      ops.operator? v.atom = some op ∧ v.suits op = false ∧ fault = .arityMismatch op v.degree

theorem checkOperators_eq_error_iff {e : Expr ν} {fault : ExprFault ν} :
    e.checkOperators ops = .error fault ↔ e.OperandFault ops fault := by
  have hfirst : e.validateOperators ops = .error fault ↔
      ∃ before v after op, e.preorder = before ++ v :: after ∧
        (∀ w ∈ before, ∀ op, ops.operator? w.atom = some op → w.suits op = true) ∧
        ops.operator? v.atom = some op ∧ v.suits op = false ∧ fault = .arityMismatch op v.degree := by
    rw [validateOperators_eq_forM e 0, preorder_eq_viewsFrom, forM_eq_error_iff]
    simp only [View.validateOperands_eq_ok_iff, View.validateOperands_eq_error_iff, exists_and_left]
  cases e with
  | empty =>
    have hrun : (empty : Expr ν).checkOperators ops = .error .emptyTree := rfl
    simpa [hrun, OperandFault, preorder_empty] using eq_comm
  | node a l r =>
    have hrun : (node a l r).checkOperators ops = (node a l r).validateOperators ops := rfl
    rw [hrun, hfirst]
    simp [OperandFault]

end Expr
end ExprCalculus
