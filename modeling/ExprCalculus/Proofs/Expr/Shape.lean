import ExprCalculus.Proofs.Derivative.Usable
import ExprCalculus.Proofs.Expr.RoundTrip
import ExprCalculus.Proofs.Simplify.AllOrNothing

/-!
# The shape of trees

No node has a right child without a left one. Whatever makes a tree or changes one keeps this: what is read is written
with the left operand first, a derivative has a value and so has every operator its operands, and a pass puts in place
of an operator one of its operands or a number.
-/

namespace ExprCalculus.Expr

variable {ν : Type}

/-- A tree that can hang below a node. -/
structure IsBranch (e : Expr ν) : Prop where
  shapely : e.Shapely
  nonempty : e.isEmpty = false

theorem isBranch_leaf (a : Atom ν) : (leaf a).IsBranch := ⟨⟨fun _ => rfl, trivial, trivial⟩, rfl⟩

/-! ### Subtrees -/

/-- A root with a right child has a left one. -/
def FillsLeftFirst : Expr ν → Prop
  | empty => True
  | node _ l r => l.isEmpty = true → r.isEmpty = true

theorem shapely_iff_everywhere {e : Expr ν} : e.Shapely ↔ e.Everywhere FillsLeftFirst := by
  induction e with
  | empty => exact Iff.rfl
  | node a l r ihl ihr => simp only [Shapely, Everywhere, FillsLeftFirst, ihl, ihr]

theorem IsBranch.of_at? {e s : Expr ν} {path : Path} (he : e.Shapely) (h : e.at? path = some s) : s.IsBranch := by
  induction e generalizing path with
  | empty => cases h
  | node a l r ihl ihr =>
    obtain ⟨_, hl, hr⟩ := id he
    match path with
    | [] =>
      obtain rfl := Option.some.inj h
      exact ⟨he, rfl⟩
    | .left :: path => exact ihl hl h
    | .right :: path => exact ihr hr h

theorem replaceAt_self {e s : Expr ν} {path : Path} (h : e.at? path = some s) : e.replaceAt path s = e := by
  induction e generalizing path with
  | empty => rfl
  | node a l r ihl ihr =>
    match path with
    | [] => exact (Option.some.inj h).symm
    | .left :: path => simp only [replaceAt, ihl h]
    | .right :: path => simp only [replaceAt, ihr h]

theorem isEmpty_replaceAt {e new : Expr ν} {path : Path} (hnew : new.isEmpty = false) :
    (e.replaceAt path new).isEmpty = e.isEmpty := by
  cases e with
  | empty => rfl
  | node a l r =>
    match path with
    | [] => exact hnew
    | .left :: path => rfl
    | .right :: path => rfl

/-- A branch in place of a subtree leaves every other node with the children that it had. -/
theorem Shapely.replaceAt {e new : Expr ν} {path : Path} (he : e.Shapely) (hnew : new.IsBranch) :
    (e.replaceAt path new).Shapely := by
  induction e generalizing path with
  | empty => trivial
  | node a l r ihl ihr =>
    obtain ⟨hroot, hl, hr⟩ := he
    match path with
    | [] => exact hnew.shapely
    | .left :: path =>
      refine ⟨?_, ihl hl, hr⟩
      rw [isEmpty_replaceAt hnew.nonempty]
      exact hroot
    | .right :: path =>
      refine ⟨?_, hl, ihr hr⟩
      rw [isEmpty_replaceAt hnew.nonempty]
      exact hroot

theorem IsBranch.replaceAt {e new : Expr ν} {path : Path} (he : e.IsBranch) (hnew : new.IsBranch) :
    (e.replaceAt path new).IsBranch :=
  ⟨he.shapely.replaceAt hnew, (isEmpty_replaceAt hnew.nonempty).trans he.nonempty⟩

/-! ### Attaching and detaching -/

theorem isEmpty_setChild (e new : Expr ν) (side : Side) : (e.setChild side new).isEmpty = e.isEmpty := by
  cases e with
  | empty => rfl
  | node a l r => cases side <;> rfl

theorem setChild_child (e : Expr ν) (side : Side) : e.setChild side (e.child side) = e := by
  cases e with
  | empty => rfl
  | node a l r => cases side <;> rfl

theorem IsBranch.attach {e branch e' : Expr ν} {side : Side} (he : e.IsBranch) (hbranch : branch.IsBranch)
    (h : e.attach side branch = .ok e') : e'.IsBranch := by
  refine ⟨he.shapely.attach hbranch.shapely hbranch.nonempty h, ?_⟩
  cases e with
  | empty => cases h
  | node a l r =>
    simp only [Expr.attach] at h
    split at h
    · cases h
    · split at h
      · obtain rfl := Except.ok.inj h
        exact isEmpty_setChild _ _ side
      · cases h

theorem IsBranch.detach {e e' : Expr ν} {side : Side} (he : e.IsBranch) (h : e.detach side = .ok e') :
    e'.IsBranch := by
  refine ⟨he.shapely.detach h, ?_⟩
  cases e with
  | empty => cases h
  | node a l r =>
    simp only [Expr.detach] at h
    split at h
    · cases h
    · split at h
      · cases h
      · obtain rfl := Except.ok.inj h
        exact isEmpty_setChild _ _ side

/-! ### Trees that are read, or derived -/

theorem shapely_of_read [Numeral ν] {text : String} {e : Expr ν} (h : Expr.read text = .ok e) : e.Shapely := by
  obtain ⟨body, hwritten, _⟩ := written_of_read h
  exact shapely_of_written hwritten

variable [Arithmetic ν] {ops : OperatorSet} {bindings : Bindings ν}

/-- A tree with a value has operators with just their operands, and leaves. -/
theorem shapely_of_evaluate {e : Expr ν} {v : ν} (h : e.evaluate ops bindings = .ok v) : e.Shapely := by
  induction e generalizing v with
  | empty => trivial
  | node a l r ihl ihr =>
    obtain ⟨hvalid, hcompute⟩ := evaluate_eq_ok_iff.1 h
    obtain ⟨hroot, hlvalid, hrvalid⟩ := validate_node_eq_ok_iff.1 hvalid
    cases hop : ops.operator? a with
    | none =>
      obtain ⟨rfl, rfl⟩ := children_empty_of_compute hop hroot hcompute
      exact ⟨fun _ => rfl, trivial, trivial⟩
    | some op =>
      have hfits : op.fits l r = true := (validateRoot_operator_eq_ok_iff hop).1 hroot
      obtain ⟨x, hx, hright⟩ := (compute_operator_eq_ok_iff (meaning_eq_operator_iff.2 hop)).1 hcompute
      have hl : l.Shapely := ihl (evaluate_eq_ok_iff.2 ⟨hlvalid, hx⟩)
      cases harity : op.arity with
      | unary =>
        obtain ⟨_, rfl⟩ := (Operator.fits_unary harity).1 hfits
        exact ⟨fun _ => rfl, hl, trivial⟩
      | binary =>
        obtain ⟨hlne, _⟩ := (Operator.fits_binary harity).1 hfits
        simp only [harity] at hright
        obtain ⟨y, hy, _⟩ := hright
        have hr : r.Shapely := ihr (evaluate_eq_ok_iff.2 ⟨hrvalid, hy⟩)
        refine ⟨?_, hl, hr⟩
        intro hempty
        rw [hlne] at hempty
        cases hempty

theorem shapely_of_differentiate {e d : Expr ν} {x : String} (h : e.differentiate ops bindings x = .ok d) :
    d.Shapely := by
  obtain ⟨v, hv⟩ := (usable_of_differentiate h).2.value
  exact shapely_of_evaluate hv

/-! ### Trees that are optimized -/

theorem shapely_sweepPass {p : Pass} {e : Expr ν} (h : e.Shapely) : (e.sweepPass ops p).tree.Shapely := by
  rw [shapely_iff_everywhere] at h ⊢
  refine everywhere_sweepPass ?_ ?_ h
  · intro c _
    rfl
  · intro a l r hroot
    simp only [FillsLeftFirst, isEmpty_sweepPass]
    exact hroot

theorem keptByPasses_shapely :
    KeptByPasses ops fun e : Expr ν => e.checkOperators ops = .ok () ∧ e.Shapely :=
  ⟨fun h => h.1, fun _ h => ⟨checkOperators_sweepPass h.1, shapely_sweepPass h.2⟩⟩

theorem shapely_runInPlace (o : Optimization) {e : Expr ν} (he : e.Shapely) :
    (o.runInPlace ops e).tree.Shapely ∧ (e.isEmpty = false → (o.runInPlace ops e).tree.isEmpty = false) := by
  by_cases ho : o.IsIdle
  · rw [Optimization.runInPlace_of_isIdle ho]
    exact ⟨he, id⟩
  · cases hcheck : e.checkOperators ops with
    | error fault =>
      rw [Optimization.runInPlace_of_fault ho hcheck]
      exact ⟨he, id⟩
    | ok _ =>
      obtain ⟨s, hs, hchecked, hshape⟩ := keptByPasses_shapely.runInPlace o ⟨hcheck, he⟩
      rw [hs]
      exact ⟨hshape, fun _ => (checkOperators_eq_ok_iff.1 hchecked).1⟩

theorem IsBranch.runInPlace (o : Optimization) {e : Expr ν} (he : e.IsBranch) :
    (o.runInPlace ops e).tree.IsBranch := by
  obtain ⟨hshape, hne⟩ := shapely_runInPlace o he.shapely
  exact ⟨hshape, hne he.nonempty⟩

end ExprCalculus.Expr
