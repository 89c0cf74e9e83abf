import ExprCalculus.Expr.Edit

/-!
# Edits in place

An edit works on the tree itself and checks as it goes along. What it leaves is kept apart from its outcome, so a
fault says nothing yet about the tree that is left.
-/

namespace ExprCalculus

variable {σ ν : Type}

/-- What an edit has left, whether or not it has failed. -/
structure Edited (σ ν : Type) where
  after : σ
  outcome : Except (ExprFault ν) Unit

namespace Edited

def done (s : σ) : Edited σ ν := ⟨s, .ok ()⟩

def stopped (s : σ) (fault : ExprFault ν) : Edited σ ν := ⟨s, .error fault⟩

/-- What a computation gives that changes nothing itself takes the place of what was there. -/
def aside (s : σ) : Except (ExprFault ν) σ → Edited σ ν
  | .ok s' => done s'
  | .error fault => stopped s fault

end Edited

namespace Expr

def plantInPlace (e root : Expr ν) : Edited (Expr ν) ν :=
  if e.isEmpty then .done root else .stopped e .rootPresent

/-- Attaches a branch to the tree itself. The place for it is looked at only when the guard has been passed. -/
def attachInPlace (e : Expr ν) (side : Side) (branch : Expr ν) : Edited (Expr ν) ν :=
  match e with
  | empty => .stopped empty .emptyTree
  | node a l _ =>
    if side = .right ∧ l.isEmpty = true then .stopped e (.rightBeforeLeft a)
    else if (e.child side).isEmpty = false then .stopped e (.branchOccupied side)
    else .done (e.setChild side branch)

/-- Deletes a branch of the tree itself. That the place was empty shows only when it has been cleared. -/
def detachInPlace (e : Expr ν) (side : Side) : Edited (Expr ν) ν :=
  match e with
  | empty => .stopped empty .emptyTree
  | node a _ r =>
    if side = .left ∧ r.isEmpty = false then .stopped e (.leftBeforeRight a)
    else
      let cleared := e.setChild side empty
      if (e.child side).isEmpty then .stopped cleared (.branchEmpty side) else .done cleared

end Expr
end ExprCalculus
