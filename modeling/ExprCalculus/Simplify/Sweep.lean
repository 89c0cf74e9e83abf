import ExprCalculus.Expr.Basic

/-!
# Sweeps

A rule may put another tree in the place of a node, given the node's atom and its children. A sweep goes through
a tree once from the leaves to the root, offers every node with its swept children to the rule, and counts
how often the rule had an answer.
-/

namespace ExprCalculus

variable {ν : Type}

/-- A tree and how many steps of simplification led to it. -/
structure Simplified (ν : Type) where
  tree : Expr ν
  steps : Nat
  deriving DecidableEq

namespace Simplified

def unchanged (e : Expr ν) : Simplified ν := ⟨e, 0⟩

/-- The result of going on from a simplified tree; the steps add up. -/
def andThen (s : Simplified ν) (next : Expr ν → Simplified ν) : Simplified ν :=
  ⟨(next s.tree).tree, s.steps + (next s.tree).steps⟩

theorem unchanged_andThen (e : Expr ν) (next : Expr ν → Simplified ν) :
    (unchanged e).andThen next = next e := by
  simp [unchanged, andThen]

theorem andThen_assoc (s : Simplified ν) (f g : Expr ν → Simplified ν) :
    (s.andThen f).andThen g = s.andThen fun e => (f e).andThen g := by
  simp [andThen, Nat.add_assoc]

end Simplified

/-- What takes the place of a node with this atom and these children, if anything does. -/
abbrev NodeRule (ν : Type) := Atom ν → Expr ν → Expr ν → Option (Expr ν)

/-- Offers every node to the rule, children first. -/
def Expr.sweep (rule : NodeRule ν) : Expr ν → Simplified ν
  | empty => .unchanged empty
  | node a l r =>
    let l := l.sweep rule
    let r := r.sweep rule
    match rule a l.tree r.tree with
    | some e => ⟨e, l.steps + r.steps + 1⟩
    | none => ⟨node a l.tree r.tree, l.steps + r.steps⟩

/-- A sweep without steps leaves the tree as it was. -/
theorem Expr.sweep_eq_unchanged {rule : NodeRule ν} {e : Expr ν} (h : (e.sweep rule).steps = 0) :
    e.sweep rule = .unchanged e := by
  induction e with
  | empty => rfl
  | node a l r ihl ihr =>
    simp only [sweep] at h ⊢
    split at h
    · simp at h
    · have hl := ihl (by simp only at h; omega)
      have hr := ihr (by simp only at h; omega)
      rename_i hnone
      rw [hl, hr] at hnone ⊢
      simp only [Simplified.unchanged] at hnone ⊢

end ExprCalculus
