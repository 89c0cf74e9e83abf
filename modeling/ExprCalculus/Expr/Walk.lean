import ExprCalculus.Expr.Preorder

/-!
# Walks with a visitor

A visitor keeps a state and is told of every node twice: on entering it, where it also decides whether the
children are walked, and on leaving it, when all below it is done. `Visitor.logged` records what any visitor
was told.
-/

namespace ExprCalculus

variable {σ ν α : Type}

/-- Someone who walks a tree with a state of type `σ`. -/
structure Visitor (σ ν : Type) where
  enter : View ν → σ → Bool × σ
  /-- The new state after the children; nothing changes unless the visitor says so. -/
  leave : View ν → σ → σ := fun _ s => s

/-- Walks a tree whose root has the given depth; an empty tree tells the visitor nothing. -/
def Expr.walk (v : Visitor σ ν) : Expr ν → Nat → σ → σ
  | empty, _, s => s
  | node a l r, depth, s =>
    let view := View.ofNode depth a l r
    let (descend, entered) := v.enter view s
    let walked :=
      if descend then r.walk v (depth + 1) (l.walk v (depth + 1) entered) else entered
    v.leave view walked

namespace Expr

/-- Where the visitor wants the children of the root, they are walked one after the other. -/
theorem walk_of_descend {v : Visitor σ ν} {a : Atom ν} {l r : Expr ν} {depth : Nat} {s : σ}
    (h : (v.enter (View.ofNode depth a l r) s).1 = true) :
    (node a l r).walk v depth s =
      v.leave (View.ofNode depth a l r)
        (r.walk v (depth + 1) (l.walk v (depth + 1) (v.enter (View.ofNode depth a l r) s).2)) := by
  simp only [walk, h, ↓reduceIte]

theorem walk_of_stop {v : Visitor σ ν} {a : Atom ν} {l r : Expr ν} {depth : Nat} {s : σ}
    (h : (v.enter (View.ofNode depth a l r) s).1 = false) :
    (node a l r).walk v depth s =
      v.leave (View.ofNode depth a l r) (v.enter (View.ofNode depth a l r) s).2 := by
  simp only [walk, h, Bool.false_eq_true, ↓reduceIte]

end Expr

inductive Event (ν : Type) where
  | enter (view : View ν)
  | leave (view : View ν)
  deriving DecidableEq

namespace Visitor

/-- The visitor with a record of all that it was told, oldest first. -/
def logged (v : Visitor σ ν) : Visitor (σ × List (Event ν)) ν where
  enter view s :=
    let (descend, s') := v.enter view s.1
    (descend, s', s.2 ++ [.enter view])
  leave view s := (v.leave view s.1, s.2 ++ [.leave view])

/-- Walks the children of just those nodes that satisfy a test. -/
def pruned (descend : View ν → Bool) : Visitor Unit ν where
  enter view _ := (descend view, ())

/-- Walks everything and collects something of every node on entering it. -/
def collect (f : View ν → α) : Visitor (List α) ν where
  enter view found := (true, found ++ [f view])

end Visitor

namespace Expr

/-- What a visitor without a state of its own is told on a walk. -/
def events (descend : View ν → Bool) (e : Expr ν) (depth : Nat) : List (Event ν) :=
  (e.walk (Visitor.pruned descend).logged depth ((), [])).2

def outline [Numeral ν] (e : Expr ν) : List String := e.walk (Visitor.collect View.outlineLine) 0 []

end Expr
end ExprCalculus
