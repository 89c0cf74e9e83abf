import Mathlib.Data.List.Forall2
import ExprCalculus.Expr.Walk
import ExprCalculus.Proofs.Expr.Symbols

/-!
# Trees and their views in pre-order

A traversal from a stack shows what a walk shows to a visitor that goes everywhere, one view for each node. The views
say of a node on which sides it has children, so that it is known where the views of each subtree end:
`Expr.forall₂_viewsFrom_append_iff` reads a tree off the front of a longer list of views.
-/

namespace ExprCalculus

variable {σ ν : Type}

def Event.entered? : Event ν → Option (View ν)
  | enter view => some view
  | leave _ => none

/-- The visitor goes on to the children of every node. -/
def Visitor.GoesEverywhere (v : Visitor σ ν) : Prop := ∀ view s, (v.enter view s).1 = true

/-- The views show alike atoms, and children on the same sides. At which depth does not matter. -/
def View.Alike (same : Atom ν → Atom ν → Prop) (v w : View ν) : Prop :=
  same v.atom w.atom ∧ v.hasLeft = w.hasLeft ∧ v.hasRight = w.hasRight

namespace Expr

/-! ### A walk that goes everywhere -/

theorem entered_walk_logged {v : Visitor σ ν} (hv : v.GoesEverywhere) (e : Expr ν) (depth : Nat)
    (t : σ × List (Event ν)) :
    (e.walk v.logged depth t).2.filterMap Event.entered? =
      t.2.filterMap Event.entered? ++ e.viewsFrom depth := by
  induction e generalizing depth t with
  | empty => exact (List.append_nil _).symm
  | node a l r ihl ihr =>
    have hroot : (v.logged.enter (View.ofNode depth a l r) t).1 = true := hv _ t.1
    rw [walk_of_descend hroot]
    have hleave : ∀ walked : σ × List (Event ν),
        (v.logged.leave (View.ofNode depth a l r) walked).2.filterMap Event.entered? =
          walked.2.filterMap Event.entered? := by
      intro walked
      simp [Visitor.logged, Event.entered?]
    have henter : (v.logged.enter (View.ofNode depth a l r) t).2.2.filterMap Event.entered? =
        t.2.filterMap Event.entered? ++ [View.ofNode depth a l r] := by
      simp [Visitor.logged, Event.entered?]
    rw [hleave, ihr, ihl, henter]
    simp [viewsFrom]

/-! ### Size and depth -/

theorem length_viewsFrom (e : Expr ν) (depth : Nat) : (e.viewsFrom depth).length = e.size := by
  induction e generalizing depth with
  | empty => rfl
  | node a l r ihl ihr =>
    rw [viewsFrom, List.length_cons, List.length_append, ihl, ihr, size]
    omega

theorem depth_lt_of_mem_viewsFrom {e : Expr ν} {depth : Nat} {view : View ν} (h : view ∈ e.viewsFrom depth) :
    view.depth < depth + e.depth := by
  induction e generalizing depth with
  | empty => cases h
  | node a l r ihl ihr =>
    rw [Expr.depth]
    rcases List.mem_cons.1 h with rfl | h
    · show depth < _
      omega
    · rcases List.mem_append.1 h with h | h
      · have hl := ihl h
        omega
      · have hr := ihr h
        omega

theorem exists_deepest {e : Expr ν} (h : 0 < e.depth) (depth : Nat) :
    ∃ view ∈ e.viewsFrom depth, view.depth + 1 = depth + e.depth := by
  induction e generalizing depth with
  | empty => exact absurd h (Nat.lt_irrefl 0)
  | node a l r ihl ihr =>
    have hdepth : (node a l r).depth = 1 + max l.depth r.depth := rfl
    by_cases hleft : r.depth ≤ l.depth ∧ 0 < l.depth
    · obtain ⟨view, hview, hdeepest⟩ := ihl hleft.2 (depth + 1)
      exact ⟨view, List.mem_cons_of_mem _ (List.mem_append_left _ hview), by omega⟩
    · by_cases hright : 0 < r.depth
      · obtain ⟨view, hview, hdeepest⟩ := ihr hright (depth + 1)
        exact ⟨view, List.mem_cons_of_mem _ (List.mem_append_right _ hview), by omega⟩
      · refine ⟨View.ofNode depth a l r, List.mem_cons_self, ?_⟩
        show depth + 1 = _
        omega

/-- The depth of a tree is one more than the greatest depth of a node, if it has one. -/
theorem depth_eq_max? (e : Expr ν) : e.depth = ((e.preorder.map View.depth).max?.map (· + 1)).getD 0 := by
  rw [preorder_eq_viewsFrom]
  cases e with
  | empty => rfl
  | node a l r =>
    have hpos : 0 < (node a l r).depth := by
      rw [depth]
      omega
    obtain ⟨deepest, hdeepest, hdepth⟩ := exists_deepest hpos 0
    have hmax : (((node a l r).viewsFrom 0).map View.depth).max? = some deepest.depth := by
      refine List.max?_eq_some_iff.2 ⟨List.mem_map_of_mem hdeepest, ?_⟩
      intro level hlevel
      obtain ⟨view, hview, rfl⟩ := List.mem_map.1 hlevel
      have hlt := depth_lt_of_mem_viewsFrom hview
      omega
    rw [hmax, Option.map_some, Option.getD_some]
    omega

/-! ### Trees from views -/

/-- The same tree but for its atoms, and these are alike. -/
def Alike (same : Atom ν → Atom ν → Prop) : Expr ν → Expr ν → Prop
  | empty, empty => True
  | node a l r, node a' l' r' => same a a' ∧ l.Alike same l' ∧ r.Alike same r'
  | _, _ => False

theorem alike_eq_iff {e e' : Expr ν} : e.Alike Eq e' ↔ e = e' := by
  induction e generalizing e' with
  | empty => cases e' <;> simp [Alike]
  | node a l r ihl ihr => cases e' <;> simp [Alike, ihl, ihr]

theorem isEmpty_eq_of_size_eq {e e' : Expr ν} (h : e.size = e'.size) : e.isEmpty = e'.isEmpty := by
  cases e with
  | empty =>
    cases e' with
    | empty => rfl
    | node a' l' r' =>
      simp only [size] at h
      omega
  | node a l r =>
    cases e' with
    | empty =>
      simp only [size] at h
      omega
    | node a' l' r' => rfl

theorem isEmpty_of_alike {same : Atom ν → Atom ν → Prop} {e e' : Expr ν} (h : e.Alike same e') :
    e.isEmpty = e'.isEmpty := by
  cases e <;> cases e' <;> simp_all [Alike, isEmpty]

/-- Trees that are both empty or both not are alike if their views are, and with these the views that follow. -/
theorem forall₂_viewsFrom_append_iff {same : Atom ν → Atom ν → Prop} {e e' : Expr ν} (hempty : e.isEmpty = e'.isEmpty)
    {depth depth' : Nat} {rest rest' : List (View ν)} :
    List.Forall₂ (View.Alike same) (e.viewsFrom depth ++ rest) (e'.viewsFrom depth' ++ rest') ↔
      e.Alike same e' ∧ List.Forall₂ (View.Alike same) rest rest' := by
  induction e generalizing e' depth depth' rest rest' with
  | empty =>
    cases e' with
    | empty => simp [viewsFrom, Alike]
    | node a' l' r' => cases hempty
  | node a l r ihl ihr =>
    cases e' with
    | empty => cases hempty
    | node a' l' r' =>
      simp only [viewsFrom, List.cons_append, List.append_assoc, List.forall₂_cons, Alike, View.Alike, View.ofNode,
        Bool.not_inj_iff]
      constructor
      · rintro ⟨⟨ha, hl, hr⟩, hviews⟩
        obtain ⟨hleft, hviews⟩ := (ihl hl).1 hviews
        obtain ⟨hright, hrest⟩ := (ihr hr).1 hviews
        exact ⟨⟨ha, hleft, hright⟩, hrest⟩
      · rintro ⟨⟨ha, hleft, hright⟩, hrest⟩
        have hl := isEmpty_of_alike hleft
        have hr := isEmpty_of_alike hright
        exact ⟨⟨ha, hl, hr⟩, (ihl hl).2 ⟨hleft, (ihr hr).2 ⟨hright, hrest⟩⟩⟩

theorem forall₂_preorder_iff {same : Atom ν → Atom ν → Prop} {e e' : Expr ν} :
    List.Forall₂ (View.Alike same) e.preorder e'.preorder ↔ e.Alike same e' := by
  rw [preorder_eq_viewsFrom, preorder_eq_viewsFrom, ← List.append_nil (e.viewsFrom 0),
    ← List.append_nil (e'.viewsFrom 0)]
  constructor
  · intro hviews
    -- As many views are as many nodes.
    have hsize : e.size = e'.size := by
      rw [← length_viewsFrom e 0, ← length_viewsFrom e' 0]
      simpa using hviews.length_eq
    exact ((forall₂_viewsFrom_append_iff (isEmpty_eq_of_size_eq hsize)).1 hviews).1
  · intro halike
    exact (forall₂_viewsFrom_append_iff (isEmpty_of_alike halike)).2 ⟨halike, .nil⟩

/-- A traversal shows each node once, in the order in which a walk that goes everywhere enters them, and the deepest one
is on the last level. Trees are the same if their views are, and are alike but for their atoms if their views are. -/
theorem preorder_linearizes (e : Expr ν) :
    (∀ {σ : Type} (v : Visitor σ ν) (s : σ), v.GoesEverywhere →
        (e.walk v.logged 0 (s, [])).2.filterMap Event.entered? = e.preorder) ∧
      e.preorder.length = e.size ∧
      e.depth = ((e.preorder.map View.depth).max?.map (· + 1)).getD 0 ∧
      (∀ e' : Expr ν, List.Forall₂ (View.Alike Eq) e.preorder e'.preorder → e = e') ∧
      ∀ (same : Atom ν → Atom ν → Prop) (e' : Expr ν),
        List.Forall₂ (View.Alike same) e.preorder e'.preorder ↔ e.Alike same e' := by
  refine ⟨?_, ?_, depth_eq_max? e, ?_, fun same e' => forall₂_preorder_iff⟩
  · intro σ v s hv
    rw [entered_walk_logged hv, preorder_eq_viewsFrom]
    rfl
  · rw [preorder_eq_viewsFrom, length_viewsFrom]
  · intro e' hviews
    exact alike_eq_iff.1 (forall₂_preorder_iff.1 hviews)

/-- `NaN + sin x`, the NaN given by its bits. -/
def undefinedWave (nan : UInt64) : Expr Float :=
  node (.symbol "+") (number (Float.ofBits nan)) (node (.symbol "sin") (symbol "x") empty)

/-- Two NaN match, whatever their bits are. -/
theorem preorder_linearizes_undefinedWave :
    (Visitor.collect View.depth : Visitor (List Nat) Float).GoesEverywhere ∧
      ((undefinedWave 0x7ff8000000000000).walk (Visitor.collect View.depth).logged 0 ([], [])).2.filterMap
        Event.entered? = (undefinedWave 0x7ff8000000000000).preorder ∧
      List.Forall₂ (View.Alike Eq) (undefinedWave 0x7ff8000000000000).preorder
        (undefinedWave 0xfff8000000000001).preorder ∧
      undefinedWave 0x7ff8000000000000 = undefinedWave 0xfff8000000000001 := by
  have heverywhere : (Visitor.collect View.depth : Visitor (List Nat) Float).GoesEverywhere := fun _ _ => rfl
  have hviews : List.Forall₂ (View.Alike Eq) (undefinedWave 0x7ff8000000000000).preorder
      (undefinedWave 0xfff8000000000001).preorder := by
    rw [preorder_eq_viewsFrom, preorder_eq_viewsFrom]
    exact .cons ⟨rfl, rfl, rfl⟩ (.cons ⟨rfl, rfl, rfl⟩ (.cons ⟨rfl, rfl, rfl⟩ (.cons ⟨rfl, rfl, rfl⟩ .nil)))
  obtain ⟨hwalk, _, _, hsame, _⟩ := preorder_linearizes (undefinedWave 0x7ff8000000000000)
  exact ⟨heverywhere, hwalk _ [] heverywhere, hviews, hsame _ hviews⟩

end Expr
end ExprCalculus
