import ExprCalculus.Expr.EditInPlace
import ExprCalculus.Number.Binary64
import ExprCalculus.Proofs.Expr.Shape

/-!
# Runs of edits

A tree is edited over and over, in any order: planted and taken out, read, changed at its nodes, optimized, and
replaced by its derivative. Subtrees can be taken out of it, by moving or by copying, and can be edited and put back.
A text that is read and a derivative are made apart from the tree, and then put in its place. All other edits work on the
tree itself; that none of them leaves a changed tree behind a fault is what `attachInPlace_eq` and its like show.
-/

namespace ExprCalculus

variable {ν : Type}

namespace Edited

variable {σ : Type}

def ofRewritten (r : Rewritten ν) : Edited (Expr ν) ν := ⟨r.tree, r.outcome.map fun _ => ()⟩

/-- A failed edit has left everything as it was. -/
def IsAtomic (s : σ) (edited : Edited σ ν) : Prop := ∀ fault, edited.outcome = .error fault → edited.after = s

theorem isAtomic_aside (s : σ) (r : Except (ExprFault ν) σ) : (aside s r).IsAtomic s := by
  intro fault h
  cases r with
  | ok s' => cases h
  | error fault' => rfl

theorem after_aside {p : σ → Prop} {s : σ} {r : Except (ExprFault ν) σ} (hs : p s) (hr : ∀ s', r = .ok s' → p s') :
    p (aside s r).after := by
  cases r with
  | ok s' => exact hr s' rfl
  | error fault => exact hs

theorem isAtomic_runInPlace [Arithmetic ν] (ops : OperatorSet) (o : Optimization) (e : Expr ν) :
    (ofRewritten (o.runInPlace ops e)).IsAtomic e := by
  intro fault h
  cases hrun : (o.runInPlace ops e).outcome with
  | ok steps => simp [ofRewritten, hrun, Except.map] at h
  | error fault' =>
    rw [Optimization.runInPlace_of_error hrun]
    rfl

end Edited

/-! ### What edits in place leave -/

namespace Expr

theorem plantInPlace_eq (e root : Expr ν) : e.plantInPlace root = .aside e (e.plant root) := by
  unfold plantInPlace plant
  split <;> rfl

theorem attachInPlace_eq (e : Expr ν) (side : Side) (branch : Expr ν) :
    e.attachInPlace side branch = .aside e (e.attach side branch) := by
  cases e with
  | empty => rfl
  | node a l r =>
    simp only [attachInPlace, attach]
    split
    · rfl
    · cases ((node a l r).child side).isEmpty with
      | false => rfl
      | true => rfl

theorem detachInPlace_eq (e : Expr ν) (side : Side) : e.detachInPlace side = .aside e (e.detach side) := by
  cases e with
  | empty => rfl
  | node a l r =>
    simp only [detachInPlace, detach]
    split
    · rfl
    · cases hempty : ((node a l r).child side).isEmpty with
      | false => simp [Edited.aside]
      | true =>
        -- The place is cleared before it is known to have been empty, but then there was nothing to lose.
        have hsame : (node a l r).setChild side empty = node a l r := by
          rw [← isEmpty_iff.1 hempty, setChild_child]
        simp [Edited.aside, hsame]

theorem isAtomic_plantInPlace (e root : Expr ν) : (e.plantInPlace root).IsAtomic e := by
  rw [plantInPlace_eq]
  exact Edited.isAtomic_aside e _

theorem isAtomic_attachInPlace (e : Expr ν) (side : Side) (branch : Expr ν) :
    (e.attachInPlace side branch).IsAtomic e := by
  rw [attachInPlace_eq]
  exact Edited.isAtomic_aside e _

theorem isAtomic_detachInPlace (e : Expr ν) (side : Side) : (e.detachInPlace side).IsAtomic e := by
  rw [detachInPlace_eq]
  exact Edited.isAtomic_aside e _

theorem shapely_plantInPlace {e root : Expr ν} (he : e.Shapely) (hroot : root.Shapely) :
    (e.plantInPlace root).after.Shapely := by
  unfold plantInPlace
  split
  · exact hroot
  · exact he

theorem IsBranch.attachInPlace {e branch : Expr ν} (he : e.IsBranch) (hbranch : branch.IsBranch) (side : Side) :
    (e.attachInPlace side branch).after.IsBranch := by
  rw [attachInPlace_eq]
  exact Edited.after_aside he fun e' h => he.attach hbranch h

theorem IsBranch.detachInPlace {e : Expr ν} (he : e.IsBranch) (side : Side) :
    (e.detachInPlace side).after.IsBranch := by
  rw [detachInPlace_eq]
  exact Edited.after_aside he fun e' h => he.detach h

end Expr

/-! ### Trees and what is taken out of them -/

/-- The tree that is edited, and the subtrees that have been taken out of it. -/
structure Workspace (ν : Type) where
  tree : Expr ν := .empty
  taken : List (Expr ν) := []

/-- A node, in the tree or in a subtree that has been taken out. -/
inductive Place where
  | inTree (path : Expr.Path)
  | inTaken (index : Nat) (path : Expr.Path)

/-- A branch to plant or to attach: a new leaf, a copy of a subtree, or one that has been taken out. -/
inductive Branch (ν : Type) where
  | leaf (a : Atom ν)
  | copyOf (place : Place)
  | taken (index : Nat)

namespace Workspace

def at? (w : Workspace ν) : Place → Option (Expr ν)
  | .inTree path => w.tree.at? path
  | .inTaken index path => w.taken[index]?.bind (·.at? path)

def replaceAt (w : Workspace ν) (place : Place) (e : Expr ν) : Workspace ν :=
  match place with
  | .inTree path => { w with tree := w.tree.replaceAt path e }
  | .inTaken index path => { w with taken := w.taken.modify index (·.replaceAt path e) }

/-- An edit of the whole tree. -/
def onTree (w : Workspace ν) (f : Expr ν → Edited (Expr ν) ν) : Edited (Workspace ν) ν :=
  ⟨{ w with tree := (f w.tree).after }, (f w.tree).outcome⟩

/-- An edit of one node. Where there is no node, there is nothing to edit. -/
def onNode (w : Workspace ν) (place : Place) (f : Expr ν → Edited (Expr ν) ν) : Edited (Workspace ν) ν :=
  match w.at? place with
  | some e => ⟨w.replaceAt place (f e).after, (f e).outcome⟩
  | none => .done w

/-- The branch, and what is left without it. What has been taken out can be handed over only once. -/
def handOver (w : Workspace ν) : Branch ν → Option (Expr ν × Workspace ν)
  | .leaf a => some (.leaf a, w)
  | .copyOf place => (w.at? place).map fun e => (e, w)
  | .taken index => w.taken[index]?.map fun e => (e, { w with taken := w.taken.eraseIdx index })

/-- An edit with a branch. Without the branch there is no edit. -/
def withBranch (w : Workspace ν) (branch : Branch ν)
    (f : Expr ν → Workspace ν → Edited (Workspace ν) ν) : Edited (Workspace ν) ν :=
  match w.handOver branch with
  | some (e, left) => f e left
  | none => .done w

end Workspace

inductive Edit (ν : Type) where
  | plant (branch : Branch ν)
  | uproot
  | takeCopy (place : Place)
  | read (text : String)
  | attach (place : Place) (side : Side) (branch : Branch ν)
  | detach (place : Place) (side : Side)
  | pass (place : Place) (ops : OperatorSet) (p : Pass)
  | optimize (ops : OperatorSet) (o : Optimization)
  | differentiate (ops : OperatorSet) (bindings : Bindings ν) (x : String)

variable [Numeral ν] [Arithmetic ν]

def Edit.apply (w : Workspace ν) : Edit ν → Edited (Workspace ν) ν
  | plant branch => w.withBranch branch fun root w => w.onTree fun e => e.plantInPlace root
  | uproot => .done (if w.tree.isEmpty then w else { tree := .empty, taken := w.taken ++ [w.tree] })
  | takeCopy place => .done { w with taken := w.taken ++ (w.at? place).toList }
  | read text => w.onTree fun e => .aside e (Expr.read text)
  | attach place side branch => w.withBranch branch fun new w => w.onNode place fun e => e.attachInPlace side new
  | detach place side => w.onNode place fun e => e.detachInPlace side
  | pass place ops p => w.onNode place fun e => .ofRewritten ((Optimization.single p).runInPlace ops e)
  | optimize ops o => w.onTree fun e => .ofRewritten (o.runInPlace ops e)
  | differentiate ops bindings x => w.onTree fun e => .aside e (e.differentiate ops bindings x)

namespace Workspace

omit [Numeral ν] [Arithmetic ν]

/-! ### One edit -/

variable {w : Workspace ν}

/-- Everything in sight has its shape. -/
structure IsShapely (w : Workspace ν) : Prop where
  tree : w.tree.Shapely
  taken : ∀ e ∈ w.taken, e.IsBranch

theorem isShapely_empty : ({} : Workspace ν).IsShapely :=
  ⟨trivial, fun _ he => nomatch he⟩

theorem IsShapely.isBranch_at? (hw : w.IsShapely) {place : Place} {e : Expr ν} (h : w.at? place = some e) :
    e.IsBranch := by
  cases place with
  | inTree path => exact .of_at? hw.tree h
  | inTaken index path =>
    obtain ⟨root, hroot, he⟩ := Option.bind_eq_some_iff.1 h
    exact .of_at? (hw.taken root (List.mem_of_getElem? hroot)).shapely he

theorem replaceAt_self {place : Place} {e : Expr ν} (h : w.at? place = some e) : w.replaceAt place e = w := by
  cases place with
  | inTree path => simp only [replaceAt, Expr.replaceAt_self h]
  | inTaken index path =>
    obtain ⟨root, hroot, he⟩ := Option.bind_eq_some_iff.1 h
    have hsame : w.taken.modify index (·.replaceAt path e) = w.taken := by
      refine List.ext_getElem? fun i => ?_
      rw [List.getElem?_modify]
      by_cases hi : index = i
      · subst hi
        simp [hroot, Expr.replaceAt_self he]
      · simp [hi]
    simp only [replaceAt, hsame]

theorem IsShapely.replaceAt (hw : w.IsShapely) {place : Place} {e : Expr ν} (he : e.IsBranch) :
    (w.replaceAt place e).IsShapely := by
  cases place with
  | inTree path => exact ⟨hw.tree.replaceAt he, hw.taken⟩
  | inTaken index path =>
    refine ⟨hw.tree, ?_⟩
    intro s hs
    obtain ⟨i, hi⟩ := List.mem_iff_getElem?.1 hs
    simp only [Workspace.replaceAt, List.getElem?_modify] at hi
    obtain ⟨root, hroot, hrest⟩ := Option.map_eq_some_iff.1 hi
    have hbranch := hw.taken root (List.mem_of_getElem? hroot)
    split at hrest
    · rw [← hrest]
      exact hbranch.replaceAt he
    · rw [← hrest]
      exact hbranch

theorem IsShapely.onTree (hw : w.IsShapely) {f : Expr ν → Edited (Expr ν) ν}
    (hf : ∀ e : Expr ν, e.Shapely → (f e).after.Shapely) : (w.onTree f).after.IsShapely :=
  ⟨hf _ hw.tree, hw.taken⟩

theorem IsShapely.onNode (hw : w.IsShapely) {place : Place} {f : Expr ν → Edited (Expr ν) ν}
    (hf : ∀ e : Expr ν, e.IsBranch → (f e).after.IsBranch) : (w.onNode place f).after.IsShapely := by
  unfold Workspace.onNode
  split
  · rename_i e h
    exact hw.replaceAt (hf e (hw.isBranch_at? h))
  · exact hw

/-- A branch is new, or a copy of what stays, or it is gone from what has been taken out. -/
theorem handOver_cases {branch : Branch ν} {e : Expr ν} {left : Workspace ν}
    (h : w.handOver branch = some (e, left)) :
    (left = w ∧ ((∃ a, e = .leaf a) ∨ ∃ place, w.at? place = some e)) ∨
      ∃ index, w.taken[index]? = some e ∧ left = { w with taken := w.taken.eraseIdx index } := by
  cases branch with
  | leaf a =>
    obtain ⟨rfl, rfl⟩ := Prod.mk.inj (Option.some.inj h)
    exact .inl ⟨rfl, .inl ⟨a, rfl⟩⟩
  | copyOf place =>
    obtain ⟨e', he', heq⟩ := Option.map_eq_some_iff.1 h
    obtain ⟨rfl, rfl⟩ := Prod.mk.inj heq
    exact .inl ⟨rfl, .inr ⟨place, he'⟩⟩
  | taken index =>
    obtain ⟨e', he', heq⟩ := Option.map_eq_some_iff.1 h
    obtain ⟨rfl, rfl⟩ := Prod.mk.inj heq
    exact .inr ⟨index, he', rfl⟩

theorem IsShapely.handOver (hw : w.IsShapely) {branch : Branch ν} {e : Expr ν} {left : Workspace ν}
    (h : w.handOver branch = some (e, left)) : e.IsBranch ∧ left.IsShapely := by
  rcases handOver_cases h with ⟨rfl, ⟨a, rfl⟩ | ⟨place, hat⟩⟩ | ⟨index, htaken, rfl⟩
  · exact ⟨Expr.isBranch_leaf a, hw⟩
  · exact ⟨hw.isBranch_at? hat, hw⟩
  · refine ⟨hw.taken _ (List.mem_of_getElem? htaken), hw.tree, ?_⟩
    intro s hs
    exact hw.taken s (List.mem_of_mem_eraseIdx hs)

theorem IsShapely.withBranch (hw : w.IsShapely) {branch : Branch ν}
    {f : Expr ν → Workspace ν → Edited (Workspace ν) ν}
    (hf : ∀ (e : Expr ν) (left : Workspace ν), e.IsBranch → left.IsShapely → (f e left).after.IsShapely) :
    (w.withBranch branch f).after.IsShapely := by
  unfold Workspace.withBranch
  split
  · rename_i e left h
    obtain ⟨he, hleft⟩ := hw.handOver h
    exact hf e left he hleft
  · exact hw

/-- What is left of a workspace when no more than a branch has been handed over. -/
structure Remains (w left : Workspace ν) : Prop where
  tree : left.tree = w.tree
  taken : left.taken.Sublist w.taken

theorem remains_refl (w : Workspace ν) : w.Remains w := ⟨rfl, .refl _⟩

theorem remains_onTree {f : Expr ν → Edited (Expr ν) ν} (hf : ∀ e, (f e).IsAtomic e) {fault : ExprFault ν}
    (h : (w.onTree f).outcome = .error fault) : w.Remains (w.onTree f).after :=
  ⟨hf _ fault h, .refl _⟩

theorem remains_onNode {place : Place} {f : Expr ν → Edited (Expr ν) ν} (hf : ∀ e, (f e).IsAtomic e)
    {fault : ExprFault ν} (h : (w.onNode place f).outcome = .error fault) : w.Remains (w.onNode place f).after := by
  unfold onNode at h ⊢
  split at h
  · rename_i e hat
    simp only [hf e fault h, replaceAt_self hat]
    exact w.remains_refl
  · cases h

theorem remains_handOver {branch : Branch ν} {e : Expr ν} {left : Workspace ν}
    (h : w.handOver branch = some (e, left)) : w.Remains left := by
  rcases handOver_cases h with ⟨rfl, _⟩ | ⟨index, _, rfl⟩
  · exact left.remains_refl
  · exact ⟨rfl, List.eraseIdx_sublist _ _⟩

theorem remains_withBranch {branch : Branch ν} {f : Expr ν → Workspace ν → Edited (Workspace ν) ν}
    {fault : ExprFault ν} (hf : ∀ (e : Expr ν) (left : Workspace ν), (f e left).outcome = .error fault →
      left.Remains (f e left).after)
    (h : (w.withBranch branch f).outcome = .error fault) : w.Remains (w.withBranch branch f).after := by
  unfold withBranch at h ⊢
  split at h
  · rename_i e left hhand
    have hleft := remains_handOver hhand
    have hafter := hf e left h
    exact ⟨hafter.tree.trans hleft.tree, hafter.taken.trans hleft.taken⟩
  · cases h

end Workspace

namespace Edit

open Workspace

theorem isShapely_apply {w : Workspace ν} (hw : w.IsShapely) (edit : Edit ν) : (edit.apply w).after.IsShapely := by
  cases edit with
  | plant branch =>
    exact hw.withBranch fun root left hroot hleft => hleft.onTree fun e he =>
      Expr.shapely_plantInPlace he hroot.shapely
  | uproot =>
    simp only [apply, Edited.done]
    cases hempty : w.tree.isEmpty with
    | true => exact hw
    | false =>
      refine ⟨trivial, ?_⟩
      intro e he
      rcases List.mem_append.1 he with he | he
      · exact hw.taken e he
      · rw [List.mem_singleton.1 he]
        exact ⟨hw.tree, hempty⟩
  | takeCopy place =>
    refine ⟨hw.tree, ?_⟩
    intro e he
    rcases List.mem_append.1 he with he | he
    · exact hw.taken e he
    · exact hw.isBranch_at? (Option.mem_toList.1 he)
  | read text => exact hw.onTree fun e he => Edited.after_aside he fun e' h => Expr.shapely_of_read h
  | attach place side branch =>
    exact hw.withBranch fun new left hnew hleft => hleft.onNode fun e he => he.attachInPlace hnew side
  | detach place side => exact hw.onNode fun e he => he.detachInPlace side
  | pass place ops p => exact hw.onNode fun e he => he.runInPlace (.single p)
  | optimize ops o => exact hw.onTree fun e he => (Expr.shapely_runInPlace o he).1
  | differentiate ops bindings x =>
    exact hw.onTree fun e he => Edited.after_aside he fun e' h => Expr.shapely_of_differentiate h

/-- Nothing changes in the tree, nor in the subtrees taken out of it. Only a branch to be planted or attached is gone. -/
theorem remains_of_error {w : Workspace ν} {edit : Edit ν} {fault : ExprFault ν}
    (h : (edit.apply w).outcome = .error fault) : w.Remains (edit.apply w).after := by
  cases edit with
  | plant branch =>
    exact remains_withBranch (fun root left hfault =>
      remains_onTree (fun e => Expr.isAtomic_plantInPlace e root) hfault) h
  | uproot => cases h
  | takeCopy place => cases h
  | read text => exact remains_onTree (fun e => Edited.isAtomic_aside e _) h
  | attach place side branch =>
    exact remains_withBranch (fun new left hfault =>
      remains_onNode (fun e => Expr.isAtomic_attachInPlace e side new) hfault) h
  | detach place side => exact remains_onNode (fun e => Expr.isAtomic_detachInPlace e side) h
  | pass place ops p => exact remains_onNode (fun e => Edited.isAtomic_runInPlace ops _ e) h
  | optimize ops o => exact remains_onTree (fun e => Edited.isAtomic_runInPlace ops o e) h
  | differentiate ops bindings x => exact remains_onTree (fun e => Edited.isAtomic_aside e _) h

/-! ### Runs -/

/-- One edit after the other, each on what the one before it has left, even if that one has failed. -/
def applyAll (w : Workspace ν) (edits : List (Edit ν)) : Workspace ν :=
  edits.foldl (fun w edit => (edit.apply w).after) w

theorem isShapely_applyAll {w : Workspace ν} (hw : w.IsShapely) (edits : List (Edit ν)) :
    (applyAll w edits).IsShapely := by
  induction edits generalizing w with
  | nil => exact hw
  | cons edit edits ih => exact ih (isShapely_apply hw edit)

/-- After any edits of an empty tree no node, in the tree or in a subtree taken out of it, has a right child without a
left one. If one more edit fails, it leaves the tree just as it was, and the subtrees taken out of it too, except for a
branch that was to be planted or attached. -/
theorem leftFirst_and_atomic (edits : List (Edit ν)) :
    (∀ place e, (applyAll {} edits).at? place = some e → e.left.isEmpty = true → e.right.isEmpty = true) ∧
      ∀ (edit : Edit ν) (fault : ExprFault ν), (edit.apply (applyAll {} edits)).outcome = .error fault →
        (edit.apply (applyAll {} edits)).after.tree = (applyAll {} edits).tree ∧
          (edit.apply (applyAll {} edits)).after.taken.Sublist (applyAll {} edits).taken := by
  have hshape : (applyAll {} edits).IsShapely := isShapely_applyAll isShapely_empty edits
  constructor
  · intro place e hat hleft
    have hbranch := hshape.isBranch_at? hat
    cases e with
    | empty => rfl
    | node a l r => exact hbranch.shapely.1 hleft
  · intro edit fault hfault
    have hremains := remains_of_error hfault
    exact ⟨hremains.tree, hremains.taken⟩

/-- Makes `x + x` with a copy of its own operand, takes it out and plants it again. -/
def doubling : List (Edit Float) :=
  [plant (.leaf (.symbol "+")), attach (.inTree []) .left (.leaf (.symbol "x")),
    attach (.inTree []) .right (.copyOf (.inTree [.left])), uproot, plant (.taken 0)]

theorem leftFirst_and_atomic_doubling :
    ((detach (.inTree []) .left).apply (applyAll {} doubling)).outcome = .error (.leftBeforeRight (.symbol "+")) ∧
      ((detach (.inTree []) .left).apply (applyAll {} doubling)).after.tree =
        Operator.addition.tree (.symbol "x") (.symbol "x") := by
  have hfault : ((detach (.inTree []) .left).apply (applyAll {} doubling)).outcome =
      .error (.leftBeforeRight (.symbol "+")) := rfl
  exact ⟨hfault, ((leftFirst_and_atomic doubling).2 _ _ hfault).1⟩

end Edit
end ExprCalculus
