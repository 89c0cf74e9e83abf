import ExprCalculus.Operator
import ExprCalculus.Dictionary
import ExprCalculus.Expr.Notation

/-!
# Nodes in pre-order

A view tells of one node what can be seen without its children. `Traversal` hands out the views of a tree one
after the other, parents before children and left before right, from a stack of subtrees still to be seen.
The symbols of a tree, and the variables and unbound variables among them, are read off the views.
-/

namespace ExprCalculus

variable {ν : Type}

/-- What a node shows: the steps from the root, its atom, and on which sides it has children. -/
structure View (ν : Type) where
  depth : Nat
  atom : Atom ν
  hasLeft : Bool
  hasRight : Bool
  deriving DecidableEq

namespace View

def ofNode (depth : Nat) (a : Atom ν) (l r : Expr ν) : View ν := ⟨depth, a, !l.isEmpty, !r.isEmpty⟩

/-- The node's line in an outline of its tree, indented by two spaces a level. -/
def outlineLine [Numeral ν] (v : View ν) : String :=
  String.ofList (List.replicate (2 * v.depth) ' ')
    ++ v.atom.text ++ " (" ++ v.atom.kind.title ++ ")"

end View

/-- The subtrees still to be seen, the next one first, each with the depth of its root. -/
structure Traversal (ν : Type) where
  pending : List (Expr ν × Nat)

namespace Traversal

def ofExpr (e : Expr ν) : Traversal ν := ⟨[(e, 0)]⟩

/-- The next node of some pending subtrees, and what is pending after it. Empty subtrees have no nodes. -/
def step : List (Expr ν × Nat) → Option (View ν × List (Expr ν × Nat))
  | [] => none
  | (.empty, _) :: rest => step rest
  | (.node a l r, depth) :: rest =>
    some (View.ofNode depth a l r, (l, depth + 1) :: (r, depth + 1) :: rest)

def next? (p : Traversal ν) : Option (View ν × Traversal ν) :=
  (step p.pending).map fun (view, rest) => (view, ⟨rest⟩)

def size (p : Traversal ν) : Nat := p.pending.foldr (fun entry nodes => entry.1.size + nodes) 0

theorem foldr_size_step {pending rest : List (Expr ν × Nat)} {view : View ν}
    (h : step pending = some (view, rest)) :
    pending.foldr (fun entry nodes => entry.1.size + nodes) 0 =
      rest.foldr (fun entry nodes => entry.1.size + nodes) 0 + 1 := by
  induction pending with
  | nil => simp [step] at h
  | cons entry tail ih =>
    obtain ⟨e, depth⟩ := entry
    cases e with
    | empty => simpa [Expr.size] using ih (by simpa [step] using h)
    | node a l r =>
      simp only [step, Option.some.injEq, Prod.mk.injEq] at h
      obtain ⟨-, rfl⟩ := h
      simp only [List.foldr_cons, Expr.size]
      omega

/-- Each step sees exactly one node. -/
theorem size_next? {p q : Traversal ν} {view : View ν} (h : p.next? = some (view, q)) :
    p.size = q.size + 1 := by
  obtain ⟨⟨v, rest⟩, hs, heq⟩ := Option.map_eq_some_iff.1 h
  obtain ⟨rfl, rfl⟩ := Prod.mk.inj heq
  exact foldr_size_step hs

def toList (p : Traversal ν) : List (View ν) :=
  match _h : p.next? with
  | none => []
  | some (view, q) => view :: q.toList
termination_by p.size
decreasing_by exact size_next? _h ▸ Nat.lt_succ_self _

end Traversal

namespace Expr

def preorder (e : Expr ν) : List (View ν) := (Traversal.ofExpr e).toList

/-- The distinct symbols of the tree in the order of their characters. -/
def symbols (e : Expr ν) : List String :=
  (e.preorder.filterMap fun view => view.atom.symbol?).eraseDups.mergeSort fun a b => a ≤ b

theorem mem_symbols {e : Expr ν} {name : String} :
    name ∈ e.symbols ↔ ∃ view ∈ e.preorder, view.atom.symbol? = some name := by
  simp [symbols, List.mem_mergeSort, List.mem_eraseDups]

def «variables» (ops : OperatorSet) (e : Expr ν) : List String :=
  e.symbols.filter fun name => (ops.find? name).isNone

theorem mem_variables {ops : OperatorSet} {e : Expr ν} {name : String} :
    name ∈ e.«variables» ops ↔ name ∈ e.symbols ∧ ops.find? name = none := by
  simp [«variables»]

def unbound (ops : OperatorSet) (bindings : Bindings ν) (e : Expr ν) : List String :=
  (e.«variables» ops).filter fun name => !bindings.contains name

theorem mem_unbound {ops : OperatorSet} {bindings : Bindings ν} {e : Expr ν} {name : String} :
    name ∈ e.unbound ops bindings ↔ name ∈ e.«variables» ops ∧ bindings.get? name = none := by
  simp [unbound, Dictionary.contains]

end Expr
end ExprCalculus
