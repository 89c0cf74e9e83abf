import ExprCalculus.Proofs.Expr.Calls

/-!
# Nested walks

A visitor answers from its own state, and so from all that it has been told before. On any one walk its answers are
still a function of the node, and the calls are those of `Expr.calls` for that function. What a walk looks like can
therefore be shown for fixed answers, by induction on the tree, and `Expr.isWalk_of_walk` says it of every visitor.
-/

namespace ExprCalculus

variable {σ ν : Type}

namespace Expr

/-! ### Nodes and their order -/

/-- The first path leads to a node on the way to that of the second. -/
def IsAbove (above path : Path) : Prop := above <+: path ∧ above ≠ path

theorem not_isAbove_nil {above : Path} : ¬IsAbove above [] := by
  intro h
  exact h.2 (List.prefix_nil.1 h.1)

theorem isAbove_cons_iff {side side' : Side} {above path : Path} :
    IsAbove (side :: above) (side' :: path) ↔ side = side' ∧ IsAbove above path := by
  simp only [IsAbove, List.cons_prefix_cons, ne_eq, List.cons.injEq, not_and]
  constructor
  · rintro ⟨⟨rfl, hprefix⟩, hne⟩
    exact ⟨rfl, hprefix, hne rfl⟩
  · rintro ⟨rfl, hprefix, hne⟩
    exact ⟨⟨rfl, hprefix⟩, fun _ => hne⟩

theorem forall_isAbove_cons {p : Path → Prop} {side : Side} {path : Path} :
    (∀ above, IsAbove above (side :: path) → p above) ↔ p [] ∧ ∀ above, IsAbove above path → p (side :: above) := by
  constructor
  · intro h
    refine ⟨h [] ⟨List.nil_prefix, by simp⟩, ?_⟩
    intro above habove
    exact h (side :: above) (isAbove_cons_iff.2 ⟨rfl, habove⟩)
  · rintro ⟨hroot, h⟩ above habove
    cases above with
    | nil => exact hroot
    | cons side' above =>
      obtain ⟨rfl, hrest⟩ := isAbove_cons_iff.1 habove
      exact h above hrest

theorem IsAbove.trans {top above path : Path} (h : IsAbove top above) (h' : IsAbove above path) : IsAbove top path := by
  refine ⟨h.1.trans h'.1, ?_⟩
  rintro rfl
  exact h.2 (List.IsPrefix.eq_of_length h.1 (Nat.le_antisymm h.1.length_le h'.1.length_le))

theorem isSome_at?_of_isAbove {e : Expr ν} {above path : Path} (h : IsAbove above path) (hpath : (e.at? path).isSome) :
    (e.at? above).isSome := by
  induction e generalizing above path with
  | empty => cases hpath
  | node a l r ihl ihr =>
    cases above with
    | nil => rfl
    | cons side above =>
      cases path with
      | nil => exact absurd h not_isAbove_nil
      | cons side' path =>
        obtain ⟨rfl, habove⟩ := isAbove_cons_iff.1 h
        cases side with
        | left => exact ihl habove hpath
        | right => exact ihr habove hpath

theorem exists_node_of_isSome_at? {e : Expr ν} {path : Path} (h : (e.at? path).isSome) :
    ∃ a l r, e.at? path = some (node a l r) := by
  induction e generalizing path with
  | empty => cases h
  | node a l r ihl ihr =>
    match path with
    | [] => exact ⟨a, l, r, rfl⟩
    | .left :: path => exact ihl h
    | .right :: path => exact ihr h

/-- The order of nodes in pre-order: a node comes before all that is below it, and what is on its left before what
is on its right. -/
def Precedes : Path → Path → Prop := List.Lex fun side side' => side = .left ∧ side' = .right

theorem not_precedes_self (path : Path) : ¬Precedes path path := by
  induction path with
  | nil => intro h; cases h
  | cons side path ih =>
    intro h
    cases h with
    | cons h => exact ih h
    | rel h =>
      obtain ⟨rfl, hright⟩ := h
      cases hright

/-! ### What holds of a walk -/

/-- The calls on a walk through a tree whose root has the given depth. -/
structure IsWalk (e : Expr ν) (depth : Nat) (calls : List (Call ν)) : Prop where
  silent : e = empty → calls = []
  balanced : Call.Balanced calls
  /-- There is one leave that closes what is entered, and it is of the same node. -/
  closed : ∀ before visit after, calls = before ++ .enter visit :: after →
    ∃ inner rest, after = inner ++ .leave visit :: rest ∧ Call.Balanced inner ∧
      ∀ inner' visit' rest', after = inner' ++ .leave visit' :: rest' → Call.Balanced inner' →
        inner' = inner ∧ visit' = visit
  inOrder : (Call.visits calls).Pairwise fun visit visit' => Precedes visit.path visit'.path
  once : ((Call.visits calls).map Visit.path).Nodup
  /-- Just the nodes are entered below all of whose ancestors the visitor has wanted to go on. -/
  entered : ∀ path, path ∈ (Call.visits calls).map Visit.path ↔
    (e.at? path).isSome ∧
      ∀ above, IsAbove above path → ∃ visit ∈ Call.visits calls, visit.path = above ∧ visit.descend = true
  shown : ∀ visit ∈ Call.visits calls, ∃ a l r, e.at? visit.path = some (node a l r) ∧
    visit.view = View.ofNode (depth + visit.path.length) a l r
  stopped : ∀ before visit after, calls = before ++ .enter visit :: after → visit.descend = false →
    ∃ rest, after = .leave visit :: rest
  enterDepth : ∀ before visit after, calls = before ++ .enter visit :: after →
    visit.view.depth = depth + (Call.opened before []).length
  leaveDepth : ∀ before visit after, calls = before ++ .leave visit :: after →
    ∃ outer, Call.opened before [] = visit :: outer ∧ visit.view.depth = depth + outer.length

/-! ### Walks with given answers -/

/-- The calls of a walk on which the visitor answers by the node. -/
def calls : Expr ν → (Path → Bool) → Nat → List (Call ν)
  | empty, _, _ => []
  | node a l r, answer, depth =>
    let root : Visit ν := ⟨[], View.ofNode depth a l r, answer []⟩
    let inner :=
      if answer [] then
        (l.calls (fun path => answer (.left :: path)) (depth + 1)).map (Call.below .left) ++
          (r.calls (fun path => answer (.right :: path)) (depth + 1)).map (Call.below .right)
      else []
    .enter root :: (inner ++ [.leave root])

theorem balanced_calls (e : Expr ν) (answer : Path → Bool) (depth : Nat) : Call.Balanced (e.calls answer depth) := by
  induction e generalizing answer depth with
  | empty => exact .nil
  | node a l r ihl ihr =>
    refine .bracket ?_ .nil
    split
    · exact ((ihl _ _).map_below .left).append ((ihr _ _).map_below .right)
    · exact .nil

theorem nests_calls (e : Expr ν) (answer : Path → Bool) (depth : Nat) :
    Call.Nests depth [] (e.calls answer depth) [] := by
  induction e generalizing answer depth with
  | empty => exact .done
  | node a l r ihl ihr =>
    let root : Visit ν := ⟨[], View.ofNode depth a l r, answer []⟩
    have hleave : Call.Nests depth [root] [.leave root] [] := .leave rfl .done
    refine .enter rfl (by simp) (.append ?_ hleave)
    split
    · rename_i hroot
      have hdescend : root.descend = true := hroot
      exact ((ihl _ _).map_below hdescend .left).append ((ihr _ _).map_below hdescend .right)
    · exact .done

theorem nests_of_calls_eq_append {e : Expr ν} {answer : Path → Bool} {depth : Nat} {before after : List (Call ν)}
    (h : e.calls answer depth = before ++ after) : Call.Nests depth (Call.opened before []) after [] := by
  have hnests := nests_calls e answer depth
  rw [h] at hnests
  exact hnests.split

/-- The root is entered first, then, unless the walk stops there, what is on its left and what is on its right. -/
theorem visits_calls_node (a : Atom ν) (l r : Expr ν) (answer : Path → Bool) (depth : Nat) :
    Call.visits ((node a l r).calls answer depth) =
      ⟨[], View.ofNode depth a l r, answer []⟩ ::
        if answer [] then
          (Call.visits (l.calls (fun path => answer (.left :: path)) (depth + 1))).map (Visit.below .left) ++
            (Call.visits (r.calls (fun path => answer (.right :: path)) (depth + 1))).map (Visit.below .right)
        else [] := by
  cases hroot : answer [] with
  | false => simp [calls, hroot, Call.visits, Call.entered?]
  | true =>
    rw [← Call.visits_map_below, ← Call.visits_map_below]
    simp [calls, hroot, Call.visits, Call.entered?]

theorem pairwise_precedes_calls (e : Expr ν) (answer : Path → Bool) (depth : Nat) :
    (Call.visits (e.calls answer depth)).Pairwise fun visit visit' => Precedes visit.path visit'.path := by
  induction e generalizing answer depth with
  | empty => exact .nil
  | node a l r ihl ihr =>
    rw [visits_calls_node]
    split
    · refine List.pairwise_cons.2 ⟨?_, List.pairwise_append.2 ⟨?_, ?_, ?_⟩⟩
      · intro visit hvisit
        rcases List.mem_append.1 hvisit with hvisit | hvisit
        · obtain ⟨inner, _, rfl⟩ := List.mem_map.1 hvisit
          exact .nil
        · obtain ⟨inner, _, rfl⟩ := List.mem_map.1 hvisit
          exact .nil
      · exact (ihl _ _).map _ fun _ _ h => .cons h
      · exact (ihr _ _).map _ fun _ _ h => .cons h
      · intro visit hvisit visit' hvisit'
        obtain ⟨inner, _, rfl⟩ := List.mem_map.1 hvisit
        obtain ⟨inner', _, rfl⟩ := List.mem_map.1 hvisit'
        exact .rel ⟨rfl, rfl⟩
    · exact List.pairwise_singleton _ _

/-- The root shows itself and answers for itself. -/
theorem mem_visits_calls_nil {a : Atom ν} {l r : Expr ν} {answer : Path → Bool} {depth : Nat} {view : View ν}
    {descend : Bool} :
    ⟨[], view, descend⟩ ∈ Call.visits ((node a l r).calls answer depth) ↔
      view = View.ofNode depth a l r ∧ descend = answer [] := by
  rw [visits_calls_node]
  cases answer [] <;> simp [Visit.below]

/-- Below the root the visits are those of the walks through its children, if it comes to them. -/
theorem mem_visits_calls_cons {a : Atom ν} {l r : Expr ν} {answer : Path → Bool} {depth : Nat} {side : Side}
    {path : Path} {view : View ν} {descend : Bool} :
    ⟨side :: path, view, descend⟩ ∈ Call.visits ((node a l r).calls answer depth) ↔
      answer [] = true ∧ ⟨path, view, descend⟩ ∈
        Call.visits (((node a l r).child side).calls (fun path => answer (side :: path)) (depth + 1)) := by
  rw [visits_calls_node]
  cases answer [] with
  | false => simp
  | true => cases side <;> simp [Visit.mem_map_below, child]

/-- What is entered are the nodes to which all that is above them lets the walk go, with their views and answers. -/
theorem mem_visits_calls {e : Expr ν} {answer : Path → Bool} {depth : Nat} {path : Path} {view : View ν}
    {descend : Bool} :
    ⟨path, view, descend⟩ ∈ Call.visits (e.calls answer depth) ↔
      (∃ a l r, e.at? path = some (node a l r) ∧ view = View.ofNode (depth + path.length) a l r) ∧
        descend = answer path ∧ ∀ above, IsAbove above path → answer above = true := by
  induction e generalizing answer depth path with
  | empty => simp [calls, Call.visits, at?]
  | node a l r ihl ihr =>
    cases path with
    | nil =>
      rw [mem_visits_calls_nil]
      constructor
      · rintro ⟨hview, hdescend⟩
        exact ⟨⟨a, l, r, rfl, hview⟩, hdescend, fun above habove => absurd habove not_isAbove_nil⟩
      · rintro ⟨⟨a', l', r', hnode, hview⟩, hdescend, _⟩
        cases hnode
        exact ⟨hview, hdescend⟩
    | cons side path =>
      have hlevel : depth + (side :: path).length = depth + 1 + path.length := by
        rw [List.length_cons]
        omega
      have hchild : ⟨path, view, descend⟩ ∈
          Call.visits (((node a l r).child side).calls (fun path => answer (side :: path)) (depth + 1)) ↔
            (∃ a' l' r', (node a l r).at? (side :: path) = some (node a' l' r') ∧
              view = View.ofNode (depth + 1 + path.length) a' l' r') ∧
            descend = answer (side :: path) ∧ ∀ above, IsAbove above path → answer (side :: above) = true := by
        cases side with
        | left => exact ihl
        | right => exact ihr
      rw [mem_visits_calls_cons, hchild, hlevel, forall_isAbove_cons]
      constructor
      · rintro ⟨hroot, hnode, hdescend, habove⟩
        exact ⟨hnode, hdescend, hroot, habove⟩
      · rintro ⟨hnode, hdescend, hroot, habove⟩
        exact ⟨hroot, hnode, hdescend, habove⟩

theorem mem_paths_calls {e : Expr ν} {answer : Path → Bool} {depth : Nat} {path : Path} :
    path ∈ (Call.visits (e.calls answer depth)).map Visit.path ↔
      (e.at? path).isSome ∧ ∀ above, IsAbove above path → answer above = true := by
  rw [List.mem_map]
  constructor
  · rintro ⟨⟨_, view, descend⟩, hvisit, rfl⟩
    obtain ⟨⟨a, l, r, hnode, _⟩, _, habove⟩ := mem_visits_calls.1 hvisit
    refine ⟨?_, habove⟩
    rw [hnode]
    rfl
  · rintro ⟨hnode, habove⟩
    obtain ⟨a, l, r, hroot⟩ := exists_node_of_isSome_at? hnode
    exact ⟨_, mem_visits_calls.2 ⟨⟨a, l, r, hroot, rfl⟩, rfl, habove⟩, rfl⟩

/-- The walk goes on at a node if it comes to it and the answer there is to go on. -/
theorem exists_descend_calls_iff {e : Expr ν} {answer : Path → Bool} {depth : Nat} {path : Path} :
    (∃ visit ∈ Call.visits (e.calls answer depth), visit.path = path ∧ visit.descend = true) ↔
      path ∈ (Call.visits (e.calls answer depth)).map Visit.path ∧ answer path = true := by
  constructor
  · rintro ⟨⟨_, view, descend⟩, hvisit, rfl, hdescend⟩
    exact ⟨List.mem_map_of_mem hvisit, (mem_visits_calls.1 hvisit).2.1.symm.trans hdescend⟩
  · rintro ⟨hpath, hanswer⟩
    obtain ⟨⟨_, view, descend⟩, hvisit, rfl⟩ := List.mem_map.1 hpath
    exact ⟨_, hvisit, rfl, (mem_visits_calls.1 hvisit).2.1.trans hanswer⟩

/-- Whatever the answers are, a walk with them is nested. -/
theorem isWalk_calls (e : Expr ν) (answer : Path → Bool) (depth : Nat) : e.IsWalk depth (e.calls answer depth) where
  silent := by
    rintro rfl
    rfl
  balanced := balanced_calls e answer depth
  closed := by
    intro before visit after hcalls
    obtain ⟨inner, rest, hafter, hinner⟩ := (balanced_calls e answer depth).exists_leave hcalls
    refine ⟨inner, rest, hafter, hinner, ?_⟩
    intro inner' visit' rest' hafter' hinner'
    obtain ⟨rfl, rfl, _⟩ := hinner'.eq_of_append_leave hinner (hafter'.symm.trans hafter)
    exact ⟨rfl, rfl⟩
  inOrder := pairwise_precedes_calls e answer depth
  once := by
    refine List.pairwise_map.2 ((pairwise_precedes_calls e answer depth).imp ?_)
    intro visit visit' hprecedes heq
    rw [heq] at hprecedes
    exact not_precedes_self _ hprecedes
  entered := by
    intro path
    rw [mem_paths_calls]
    refine and_congr_right fun hnode => ?_
    simp only [exists_descend_calls_iff, mem_paths_calls]
    constructor
    · intro h above habove
      refine ⟨⟨isSome_at?_of_isAbove habove hnode, ?_⟩, h above habove⟩
      intro top htop
      exact h top (htop.trans habove)
    · intro h above habove
      exact (h above habove).2
  shown := by
    rintro ⟨path, view, descend⟩ hvisit
    exact (mem_visits_calls.1 hvisit).1
  stopped := by
    intro before visit after hcalls hvisit
    exact (nests_of_calls_eq_append hcalls).of_enter.2.leave_next hvisit
  enterDepth := by
    intro before visit after hcalls
    exact (nests_of_calls_eq_append hcalls).of_enter.1
  leaveDepth := by
    intro before visit after hcalls
    exact (nests_of_calls_eq_append hcalls).of_leave

/-! ### Walks with a visitor -/

/-- The answers on the nodes of a tree, from that on the root and those on what is on its left and on its right. -/
def answersOf (root : Bool) (left right : Path → Bool) : Path → Bool
  | [] => root
  | .left :: path => left path
  | .right :: path => right path

/-- On each walk the visitor answers by the node. What it answers at a node depends on all the calls before, but each
node is entered once. -/
theorem exists_takes_calls (v : Visitor σ ν) (e : Expr ν) (depth : Nat) (s : σ) :
    ∃ answer : Path → Bool, v.Takes s (e.calls answer depth) (e.walk v depth s) := by
  induction e generalizing depth s with
  | empty => exact ⟨fun _ => true, .done⟩
  | node a l r ihl ihr =>
    cases hroot : (v.enter (View.ofNode depth a l r) s).1 with
    | false =>
      refine ⟨answersOf false (fun _ => false) (fun _ => false), ?_⟩
      rw [walk_of_stop hroot]
      exact .enter hroot (.leave .done)
    | true =>
      obtain ⟨left, hleft⟩ := ihl (depth + 1) (v.enter (View.ofNode depth a l r) s).2
      obtain ⟨right, hright⟩ := ihr (depth + 1) (l.walk v (depth + 1) (v.enter (View.ofNode depth a l r) s).2)
      refine ⟨answersOf true left right, ?_⟩
      rw [walk_of_descend hroot]
      exact .enter hroot (((hleft.map_below .left).append (hright.map_below .right)).append (.leave .done))

theorem walk_logged (v : Visitor σ ν) (e : Expr ν) (depth : Nat) (t : σ × List (Event ν)) :
    (e.walk v.logged depth t).1 = e.walk v depth t.1 := by
  induction e generalizing depth t with
  | empty => rfl
  | node a l r ihl ihr =>
    cases hroot : (v.enter (View.ofNode depth a l r) t.1).1 with
    | false =>
      have hlogged : (v.logged.enter (View.ofNode depth a l r) t).1 = false := hroot
      rw [walk_of_stop hroot, walk_of_stop hlogged]
      rfl
    | true =>
      have hlogged : (v.logged.enter (View.ofNode depth a l r) t).1 = true := hroot
      rw [walk_of_descend hroot, walk_of_descend hlogged]
      have hright := ihr (depth + 1)
        (l.walk v.logged (depth + 1) (v.logged.enter (View.ofNode depth a l r) t).2)
      rw [ihl] at hright
      exact congrArg (v.leave (View.ofNode depth a l r)) hright

/-- The walk of any visitor, from any state, makes calls that nest. They are those of the visitor's record, they lead it
from its first state to its last, and the answers are its own. -/
theorem isWalk_of_walk (v : Visitor σ ν) (e : Expr ν) (depth : Nat) (s : σ) :
    ∃ calls, v.Takes s calls (e.walk v depth s) ∧
      (e.walk v.logged depth (s, [])).2 = calls.map Call.event ∧ e.IsWalk depth calls := by
  obtain ⟨answer, htakes⟩ := exists_takes_calls v.logged e depth (s, [])
  obtain ⟨hvisitor, hlog⟩ := htakes.of_logged
  rw [walk_logged] at hvisitor
  exact ⟨e.calls answer depth, hvisitor, hlog.trans (List.nil_append _), isWalk_calls e answer depth⟩

/-- A visitor that goes on from one node and no more does not come to the operand of `sin`. -/
example :
    ((node (.symbol "+") (node (.symbol "sin") (symbol "x") empty) (symbol "y") : Expr Nat).walk
      (Visitor.logged ⟨fun _ budget => (budget != 0, budget - 1), fun _ budget => budget⟩) 0 (1, [])).2 =
      [.enter ⟨0, .symbol "+", true, true⟩, .enter ⟨1, .symbol "sin", true, false⟩,
        .leave ⟨1, .symbol "sin", true, false⟩, .enter ⟨1, .symbol "y", false, false⟩,
        .leave ⟨1, .symbol "y", false, false⟩, .leave ⟨0, .symbol "+", true, true⟩] := rfl

end Expr
end ExprCalculus
