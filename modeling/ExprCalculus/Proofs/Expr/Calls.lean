import ExprCalculus.Expr.Walk

/-!
# The calls of a visitor as brackets

A visitor is called on entering a node and on leaving it. `Call.Balanced` says that the calls pair up like
brackets, so that each node that is entered has one leave of its own, and `Call.Nests` follows the visits that are
open, entered and not yet left, from call to call. A list of calls can be split anywhere: what is open at that place
depends on the calls before it alone.
-/

namespace ExprCalculus

variable {σ ν : Type}

/-- A node on a walk: the steps to it from the root, what it shows, and whether the visitor goes on to its children. -/
structure Visit (ν : Type) where
  path : Expr.Path
  view : View ν
  descend : Bool

namespace Visit

/-- The visit as it is seen from the parent of the root. -/
def below (side : Side) (visit : Visit ν) : Visit ν := { visit with path := side :: visit.path }

theorem mem_map_below {side side' : Side} {path : Expr.Path} {view : View ν} {descend : Bool}
    {visits : List (Visit ν)} :
    ⟨side' :: path, view, descend⟩ ∈ visits.map (below side) ↔ side' = side ∧ ⟨path, view, descend⟩ ∈ visits := by
  simp only [List.mem_map, below, Visit.mk.injEq, List.cons.injEq]
  constructor
  · rintro ⟨visit, hvisit, ⟨rfl, rfl⟩, rfl, rfl⟩
    exact ⟨rfl, hvisit⟩
  · rintro ⟨rfl, hvisit⟩
    exact ⟨_, hvisit, ⟨rfl, rfl⟩, rfl, rfl⟩

end Visit

inductive Call (ν : Type) where
  | enter (visit : Visit ν)
  | leave (visit : Visit ν)

namespace Call

def event : Call ν → Event ν
  | enter visit => .enter visit.view
  | leave visit => .leave visit.view

def entered? : Call ν → Option (Visit ν)
  | enter visit => some visit
  | leave _ => none

/-- The nodes that are entered, in the order of the calls. -/
def visits (calls : List (Call ν)) : List (Visit ν) := calls.filterMap entered?

def below (side : Side) : Call ν → Call ν
  | enter visit => enter (visit.below side)
  | leave visit => leave (visit.below side)

theorem visits_map_below (side : Side) (calls : List (Call ν)) :
    visits (calls.map (below side)) = (visits calls).map (Visit.below side) := by
  induction calls with
  | nil => rfl
  | cons call calls ih =>
    cases call with
    | enter visit => exact congrArg (visit.below side :: ·) ih
    | leave visit => exact ih

/-! ### Brackets -/

/-- Every node that is entered is left, and what is entered in between is left in between. -/
inductive Balanced : List (Call ν) → Prop
  | nil : Balanced []
  | bracket {visit : Visit ν} {inner rest : List (Call ν)} (hinner : Balanced inner) (hrest : Balanced rest) :
      Balanced (enter visit :: (inner ++ leave visit :: rest))

theorem Balanced.append {calls calls' : List (Call ν)} (h : Balanced calls) (h' : Balanced calls') :
    Balanced (calls ++ calls') := by
  induction h with
  | nil => exact h'
  | bracket hinner _ _ ih =>
    rw [List.cons_append, List.append_assoc, List.cons_append]
    exact .bracket hinner ih

theorem Balanced.map_below {calls : List (Call ν)} (h : Balanced calls) (side : Side) :
    Balanced (calls.map (Call.below side)) := by
  induction h with
  | nil => exact .nil
  | bracket _ _ ihinner ihrest =>
    rw [List.map_cons, List.map_append, List.map_cons]
    exact .bracket ihinner ihrest

/-- Between a visit and a leave of the same node the calls are balanced. -/
theorem Balanced.exists_leave {calls : List (Call ν)} (h : Balanced calls) {before after : List (Call ν)}
    {visit : Visit ν} (hcalls : calls = before ++ enter visit :: after) :
    ∃ inner rest, after = inner ++ leave visit :: rest ∧ Balanced inner := by
  induction h generalizing before after with
  | nil => simp at hcalls
  | @bracket root inner rest hinner _ ihinner ihrest =>
    cases before with
    | nil =>
      obtain ⟨hroot, rfl⟩ := List.cons.inj hcalls
      obtain rfl := Call.enter.inj hroot
      exact ⟨inner, rest, rfl, hinner⟩
    | cons call before =>
      -- The visit is made either inside the first bracket or behind it.
      rcases List.append_eq_append_iff.1 (List.cons.inj hcalls).2 with
        ⟨between, hbefore, hrest⟩ | ⟨between, hsplit, hafter⟩
      · cases between with
        | nil => cases (List.cons.inj hrest).1
        | cons _ between => exact ihrest (List.cons.inj hrest).2
      · cases between with
        | nil => cases (List.cons.inj hafter).1
        | cons call between =>
          obtain ⟨rfl, rfl⟩ := List.cons.inj hafter
          obtain ⟨inner', rest', rfl, hinner'⟩ := ihinner hsplit
          exact ⟨inner', rest' ++ leave root :: rest, by simp, hinner'⟩

/-- There is at most one way for a list to begin with balanced calls and a leave. -/
theorem Balanced.eq_of_append_leave {inner inner' rest rest' : List (Call ν)} {visit visit' : Visit ν}
    (h : Balanced inner) (h' : Balanced inner')
    (heq : inner ++ leave visit :: rest = inner' ++ leave visit' :: rest') :
    inner = inner' ∧ visit = visit' ∧ rest = rest' := by
  induction h generalizing inner' visit visit' rest rest' with
  | nil =>
    cases h' with
    | nil =>
      obtain ⟨hleave, hrest⟩ := List.cons.inj heq
      exact ⟨rfl, Call.leave.inj hleave, hrest⟩
    | bracket => cases (List.cons.inj heq).1
  | @bracket root first second _ _ ihfirst ihsecond =>
    cases h' with
    | nil => cases (List.cons.inj heq).1
    | @bracket root' first' second' hfirst' hsecond' =>
      simp only [List.cons_append, List.append_assoc] at heq
      obtain ⟨hroot, htail⟩ := List.cons.inj heq
      obtain rfl := Call.enter.inj hroot
      obtain ⟨rfl, _, hsecond⟩ := ihfirst hfirst' htail
      obtain ⟨rfl, hvisit, hrest⟩ := ihsecond hsecond' hsecond
      exact ⟨rfl, hvisit, hrest⟩

/-! ### Open visits -/

/-- The visits that are open after some calls, the innermost first, where those in `outer` were open before. -/
def opened : List (Call ν) → List (Visit ν) → List (Visit ν)
  | [], outer => outer
  | enter visit :: calls, outer => opened calls (visit :: outer)
  | leave _ :: calls, outer => opened calls outer.tail

/-- Each node is entered below the innermost open visit, which goes on to its children, and each leave is that of the
innermost open visit, both at a depth that counts the visits around it. The open visits are given before the
calls and after them. -/
inductive Nests (depth : Nat) : List (Visit ν) → List (Call ν) → List (Visit ν) → Prop
  | done {outer : List (Visit ν)} : Nests depth outer [] outer
  | enter {visit : Visit ν} {outer outer' : List (Visit ν)} {calls : List (Call ν)}
      (hdepth : visit.view.depth = depth + outer.length) (hdescend : ∀ parent ∈ outer.head?, parent.descend = true)
      (h : Nests depth (visit :: outer) calls outer') : Nests depth outer (enter visit :: calls) outer'
  | leave {visit : Visit ν} {outer outer' : List (Visit ν)} {calls : List (Call ν)}
      (hdepth : visit.view.depth = depth + outer.length) (h : Nests depth outer calls outer') :
      Nests depth (visit :: outer) (leave visit :: calls) outer'

namespace Nests

variable {depth : Nat} {outer outer' outer'' : List (Visit ν)} {calls calls' : List (Call ν)}

theorem append (h : Nests depth outer calls outer') (h' : Nests depth outer' calls' outer'') :
    Nests depth outer (calls ++ calls') outer'' := by
  induction h with
  | done => exact h'
  | enter hdepth hdescend _ ih => exact .enter hdepth hdescend (ih h')
  | leave hdepth _ ih => exact .leave hdepth (ih h')

theorem split {before after : List (Call ν)} (h : Nests depth outer (before ++ after) outer') :
    Nests depth (opened before outer) after outer' := by
  induction before generalizing outer with
  | nil => exact h
  | cons call before ih =>
    cases h with
    | enter _ _ h => exact ih h
    | leave _ h => exact ih h

/-- What nests below a node nests with that node open around it. -/
theorem map_below {parent : Visit ν} (hparent : parent.descend = true) (side : Side)
    (h : Nests (depth + 1) outer calls outer') :
    Nests depth (outer.map (Visit.below side) ++ [parent]) (calls.map (Call.below side))
      (outer'.map (Visit.below side) ++ [parent]) := by
  have hlevel : ∀ {visit : Visit ν} {outer : List (Visit ν)}, visit.view.depth = depth + 1 + outer.length →
      (visit.below side).view.depth = depth + (outer.map (Visit.below side) ++ [parent]).length := by
    intro visit outer hdepth
    rw [List.length_append, List.length_map, List.length_singleton]
    show visit.view.depth = _
    omega
  induction h with
  | done => exact .done
  | @enter visit outer outer' calls hdepth hheads _ ih =>
    refine .enter (hlevel hdepth) ?_ ih
    cases outer with
    | nil =>
      intro top htop
      obtain rfl := Option.some.inj htop
      exact hparent
    | cons top outer =>
      intro top' htop
      obtain rfl := Option.some.inj htop
      exact hheads top rfl
  | leave hdepth _ ih => exact .leave (hlevel hdepth) ih

theorem of_enter {visit : Visit ν} (h : Nests depth outer (Call.enter visit :: calls) outer') :
    visit.view.depth = depth + outer.length ∧ Nests depth (visit :: outer) calls outer' := by
  cases h with
  | enter hdepth _ h => exact ⟨hdepth, h⟩

theorem of_leave {visit : Visit ν} (h : Nests depth outer (Call.leave visit :: calls) outer') :
    ∃ rest, outer = visit :: rest ∧ visit.view.depth = depth + rest.length := by
  cases h with
  | leave hdepth _ => exact ⟨_, rfl, hdepth⟩

/-- Nothing is entered below a node that the visitor does not go on from, so its leave comes next. -/
theorem leave_next {visit : Visit ν} (hvisit : visit.descend = false) (h : Nests depth (visit :: outer) calls []) :
    ∃ rest, calls = Call.leave visit :: rest := by
  cases h with
  | enter _ hdescend _ =>
    have htrue : visit.descend = true := hdescend visit rfl
    rw [hvisit] at htrue
    cases htrue
  | leave _ _ => exact ⟨_, rfl⟩

end Nests

end Call

/-! ### What a visitor makes of the calls -/

namespace Visitor

/-- The calls take the visitor from one state to another, with the answers that the visits record. -/
inductive Takes (v : Visitor σ ν) : σ → List (Call ν) → σ → Prop
  | done {s : σ} : v.Takes s [] s
  | enter {visit : Visit ν} {s s' : σ} {calls : List (Call ν)} (hanswer : (v.enter visit.view s).1 = visit.descend)
      (h : v.Takes (v.enter visit.view s).2 calls s') : v.Takes s (.enter visit :: calls) s'
  | leave {visit : Visit ν} {s s' : σ} {calls : List (Call ν)} (h : v.Takes (v.leave visit.view s) calls s') :
      v.Takes s (.leave visit :: calls) s'

namespace Takes

variable {v : Visitor σ ν} {s s' s'' : σ} {calls calls' : List (Call ν)}

theorem append (h : v.Takes s calls s') (h' : v.Takes s' calls' s'') : v.Takes s (calls ++ calls') s'' := by
  induction h with
  | done => exact h'
  | enter hanswer _ ih => exact .enter hanswer (ih h')
  | leave _ ih => exact .leave (ih h')

theorem map_below (h : v.Takes s calls s') (side : Side) : v.Takes s (calls.map (Call.below side)) s' := by
  induction h with
  | done => exact .done
  | enter hanswer _ ih => exact .enter hanswer ih
  | leave _ ih => exact .leave ih

/-- The record has just the calls, and the visitor itself is not disturbed by it. -/
theorem of_logged {t t' : σ × List (Event ν)} (h : v.logged.Takes t calls t') :
    v.Takes t.1 calls t'.1 ∧ t'.2 = t.2 ++ calls.map Call.event := by
  induction h with
  | done => exact ⟨.done, (List.append_nil _).symm⟩
  | enter hanswer _ ih =>
    obtain ⟨htakes, hlog⟩ := ih
    refine ⟨.enter hanswer htakes, ?_⟩
    rw [hlog]
    simp [logged, Call.event]
  | leave _ ih =>
    obtain ⟨htakes, hlog⟩ := ih
    refine ⟨.leave htakes, ?_⟩
    rw [hlog]
    simp [logged, Call.event]

end Takes

end Visitor

end ExprCalculus
