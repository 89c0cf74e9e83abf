import ExprCalculus.Fault

/-!
# Editing trees

Branches are attached and deleted one at a time, and never so that a node has a right child without a left
one. What an edit is to make of a tree is said here as a function of the tree; `ExprCalculus.Expr.EditInPlace`
is how an edit goes about it. `Expr.Shapely` is the rule that edits keep: `Shapely.attach` and
`Shapely.detach`.
-/

namespace ExprCalculus.Expr

variable {ν : Type}

/-- No node of the tree has a right child without a left one. -/
def Shapely : Expr ν → Prop
  | empty => True
  | node _ l r => (l.isEmpty = true → r.isEmpty = true) ∧ l.Shapely ∧ r.Shapely

def setChild : Expr ν → Side → Expr ν → Expr ν
  | empty, _, _ => empty
  | node a _ r, .left, new => node a new r
  | node a l _, .right, new => node a l new

/-- Attaches a branch below the root, on a side that is free. A right branch needs a left one. -/
def attach (e : Expr ν) (side : Side) (branch : Expr ν) : Except (ExprFault ν) (Expr ν) :=
  match e with
  | empty => .error .emptyTree
  | node a l _ =>
    if side = .right ∧ l.isEmpty = true then .error (.rightBeforeLeft a)
    else if (e.child side).isEmpty then .ok (e.setChild side branch)
    else .error (.branchOccupied side)

/-- Deletes a branch below the root. The left one stays as long as there is a right one. -/
def detach (e : Expr ν) (side : Side) : Except (ExprFault ν) (Expr ν) :=
  match e with
  | empty => .error .emptyTree
  | node a _ r =>
    if side = .left ∧ r.isEmpty = false then .error (.leftBeforeRight a)
    else if (e.child side).isEmpty then .error (.branchEmpty side)
    else .ok (e.setChild side empty)

def plant (e root : Expr ν) : Except (ExprFault ν) (Expr ν) :=
  if e.isEmpty then .ok root else .error .rootPresent

def nonempty : Expr ν → Except (ExprFault ν) (Expr ν)
  | empty => .error .emptyTree
  | e@(node ..) => .ok e

/-- The child that an operator needs on one side. -/
def operand (e : Expr ν) (side : Side) (operator : String) : Except (ExprFault ν) (Expr ν) :=
  if (e.child side).isEmpty then .error (.operandMissing operator side) else .ok (e.child side)

theorem operand_eq_ok (e : Expr ν) (side : Side) (operator : String) (h : (e.child side).isEmpty = false) :
    e.operand side operator = .ok (e.child side) := by
  simp [operand, h]

/-- Whether an operand is missed depends on no more than whether it is there. -/
theorem bind_operand_congr {α : Type} {e e' : Expr ν} {side : Side} {operator : String}
    (h : (e'.child side).isEmpty = (e.child side).isEmpty) (next : Except (ExprFault ν) α) :
    (e'.operand side operator >>= fun _ => next) = (e.operand side operator >>= fun _ => next) := by
  rw [operand, operand, h]
  split <;> rfl

theorem Shapely.attach {e branch e' : Expr ν} {side : Side} (he : e.Shapely)
    (hb : branch.Shapely) (hne : branch.isEmpty = false) (h : e.attach side branch = .ok e') :
    e'.Shapely := by
  cases e with
  | empty => simp [Expr.attach] at h
  | node a l r =>
    obtain ⟨_, hl, hr⟩ := he
    by_cases hcond : side = .right ∧ l.isEmpty = true
    · simp [Expr.attach, hcond] at h
    · cases hfree : ((node a l r).child side).isEmpty with
      | false => simp [Expr.attach, hcond, hfree] at h
      | true =>
        have h' : (node a l r).setChild side branch = e' := by
          simpa [Expr.attach, hcond, hfree] using h
        subst h'
        cases side with
        | left => exact ⟨fun h => by simp [hne] at h, hb, hr⟩
        | right => exact ⟨fun h => absurd ⟨rfl, h⟩ hcond, hl, hb⟩

theorem Shapely.detach {e e' : Expr ν} {side : Side} (he : e.Shapely)
    (h : e.detach side = .ok e') : e'.Shapely := by
  cases e with
  | empty => simp [Expr.detach] at h
  | node a l r =>
    obtain ⟨_, hl, hr⟩ := he
    by_cases hcond : side = .left ∧ r.isEmpty = false
    · simp [Expr.detach, hcond] at h
    · cases hfree : ((node a l r).child side).isEmpty with
      | true => simp [Expr.detach, hcond, hfree] at h
      | false =>
        have h' : (node a l r).setChild side empty = e' := by
          simpa [Expr.detach, hcond, hfree] using h
        subst h'
        cases side with
        | left => exact ⟨fun _ => by simpa using hcond, trivial, hr⟩
        | right => exact ⟨fun _ => rfl, hl, trivial⟩

end ExprCalculus.Expr
