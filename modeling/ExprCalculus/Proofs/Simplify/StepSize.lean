import ExprCalculus.Proofs.Expr.Symbols
import ExprCalculus.Proofs.Simplify.Swept

/-!
# What steps take away

A fold takes the operands away from an operator, which are one or two numbers. An identity is one of a binary operator
and leaves at most one of the two operands. So the number of steps that a pass counts bounds the change of the tree's
size from below, and for folding from above too. `Expr.Accumulates.sweepPasses` carries such bounds from a pass to lists
of passes.
-/

namespace ExprCalculus

variable {ν : Type}

namespace Expr

/-! ### Sweeps -/

section Sweeps

variable {rule : NodeRule ν} {k : Nat}

theorem size_sweep_add_le (h : ∀ a l r e, rule a l r = some e → e.size + k ≤ (node a l r).size) (e : Expr ν) :
    (e.sweep rule).tree.size + k * (e.sweep rule).steps ≤ e.size := by
  induction e with
  | empty => exact Nat.le_refl _
  | node a l r ihl ihr =>
    simp only [sweep]
    cases hrule : rule a (l.sweep rule).tree (r.sweep rule).tree with
    | none =>
      simp only [size, Nat.mul_add]
      omega
    | some e =>
      -- The children have become smaller before, and the step takes its own nodes away from what they are by then.
      have hstep := h _ _ _ _ hrule
      simp only [size, Nat.mul_add] at hstep ⊢
      omega

theorem size_le_sweep_add (h : ∀ a l r e, rule a l r = some e → (node a l r).size ≤ e.size + k) (e : Expr ν) :
    e.size ≤ (e.sweep rule).tree.size + k * (e.sweep rule).steps := by
  induction e with
  | empty => exact Nat.zero_le _
  | node a l r ihl ihr =>
    simp only [sweep]
    cases hrule : rule a (l.sweep rule).tree (r.sweep rule).tree with
    | none =>
      simp only [size, Nat.mul_add]
      omega
    | some e =>
      have hstep := h _ _ _ _ hrule
      simp only [size, Nat.mul_add] at hstep ⊢
      omega

end Sweeps

/-! ### Work that adds up -/

/-- The relation between a tree and what work has made of it holds where nothing is done, and it holds of two pieces
of work together if it holds of each. -/
structure Accumulates (rel : Expr ν → Simplified ν → Prop) : Prop where
  unchanged : ∀ e, rel e (.unchanged e)
  andThen : ∀ {e : Expr ν} {s t : Simplified ν}, rel e s → rel s.tree t → rel e ⟨t.tree, s.steps + t.steps⟩

theorem accumulates_size_add_le (k : Nat) :
    Accumulates fun (e : Expr ν) s => s.tree.size + k * s.steps ≤ e.size := by
  refine ⟨fun e => Nat.le_refl _, ?_⟩
  intro e s t hs ht
  simp only [Nat.mul_add]
  omega

theorem accumulates_size_le_add (k : Nat) :
    Accumulates fun (e : Expr ν) s => e.size ≤ s.tree.size + k * s.steps := by
  refine ⟨fun e => Nat.le_refl _, ?_⟩
  intro e s t hs ht
  simp only [Nat.mul_add]
  omega

theorem accumulates_depth_le : Accumulates fun (e : Expr ν) s => s.tree.depth ≤ e.depth :=
  ⟨fun _ => Nat.le_refl _, fun hs ht => Nat.le_trans ht hs⟩

theorem accumulates_symbols_subset : Accumulates fun (e : Expr ν) s => s.tree.symbols ⊆ e.symbols :=
  ⟨fun _ => List.Subset.refl _, fun hs ht => List.Subset.trans ht hs⟩

variable [Arithmetic ν] {ops : OperatorSet}

/-! ### One step -/

section Steps

variable {a : Atom ν} {l r e : Expr ν}

/-- A fold takes one or two nodes away. -/
theorem size_ruleOf_fold (h : ops.ruleOf Pass.fold.replace? a l r = some e) :
    e.size + 1 ≤ (node a l r).size ∧ (node a l r).size ≤ e.size + 2 := by
  obtain ⟨op, _, hfits, hfold⟩ := OperatorSet.ruleOf_eq_some_iff.1 h
  cases harity : op.arity with
  | unary =>
    obtain ⟨_, rfl⟩ := (Operator.fits_unary harity).1 hfits
    obtain ⟨x, rfl, rfl⟩ := (Operator.constant?_unary harity).1 hfold
    simp [size]
  | binary =>
    obtain ⟨x, y, rfl, rfl, rfl⟩ := (Operator.constant?_binary harity).1 hfold
    simp [size]

/-- An identity takes at least two nodes away: the operator, and all of an operand. -/
theorem size_ruleOf_identities (h : ops.ruleOf Pass.identities.replace? a l r = some e) :
    e.size + 2 ≤ (node a l r).size := by
  obtain ⟨op, _, hfits, hidentity⟩ := OperatorSet.ruleOf_eq_some_iff.1 h
  obtain ⟨hlne, hrne⟩ := (Operator.fits_binary (Operator.arity_of_identity? hidentity)).1 hfits
  have hl := size_pos hlne
  have hr := size_pos hrne
  rcases Pass.replace?_cases hidentity with rfl | ⟨_, rfl⟩ | ⟨c, rfl⟩
  · simp only [size]
    omega
  · simp only [size]
    omega
  · simp only [size_number, size]
    omega

end Steps

/-! ### One pass -/

theorem size_le_sweepPass_fold (ops : OperatorSet) (e : Expr ν) :
    e.size ≤ (e.sweepPass ops .fold).tree.size + 2 * (e.sweepPass ops .fold).steps :=
  size_le_sweep_add (fun _ _ _ _ h => (size_ruleOf_fold h).2) e

theorem size_sweepPass_identities_le (ops : OperatorSet) (e : Expr ν) :
    (e.sweepPass ops .identities).tree.size + 2 * (e.sweepPass ops .identities).steps ≤ e.size :=
  size_sweep_add_le (fun _ _ _ _ h => size_ruleOf_identities h) e

/-- Each step takes at least one node away. -/
theorem size_sweepPass_add_steps_le (ops : OperatorSet) (p : Pass) (e : Expr ν) :
    (e.sweepPass ops p).tree.size + (e.sweepPass ops p).steps ≤ e.size := by
  cases p with
  | fold =>
    have hstep : ∀ (a : Atom ν) l r e', ops.ruleOf Pass.fold.replace? a l r = some e' →
        e'.size + 1 ≤ (node a l r).size := fun _ _ _ _ h => (size_ruleOf_fold h).1
    have hsize := size_sweep_add_le hstep e
    rwa [Nat.one_mul] at hsize
  | identities =>
    have hsize := size_sweepPass_identities_le ops e
    omega

theorem depth_sweepPass_le (ops : OperatorSet) (p : Pass) (e : Expr ν) :
    (e.sweepPass ops p).tree.depth ≤ e.depth := by
  induction e with
  | empty => exact Nat.le_refl _
  | node a l r ihl ihr =>
    rcases sweepPass_node_cases ops p a l r with heq | ⟨_, heq⟩ | ⟨_, heq⟩ | ⟨c, heq⟩
    · simp only [heq, depth]
      omega
    · simp only [heq, depth]
      omega
    · simp only [heq, depth]
      omega
    · simp only [heq, depth_number, depth]
      omega

/-- The symbols after a pass are some of those before it. -/
theorem symbols_sweepPass_subset (ops : OperatorSet) (p : Pass) (e : Expr ν) :
    (e.sweepPass ops p).tree.symbols ⊆ e.symbols := by
  intro name hname
  refine Decidable.byContradiction fun habsent => not_mem_symbols_iff.2 ?_ hname
  refine everywhere_sweepPass ?_ ?_ (not_mem_symbols_iff.1 habsent)
  · intro c a ha hsymbol
    cases ha
    cases hsymbol
  · intro a l r hroot
    exact hroot

/-! ### Lists of passes -/

theorem Accumulates.sweepPasses {rel : Expr ν → Simplified ν → Prop} (hrel : Accumulates rel) (ops : OperatorSet)
    {passes : List Pass} (hpass : ∀ p ∈ passes, ∀ e, rel e (e.sweepPass ops p)) (e : Expr ν) :
    rel e (e.sweepPasses ops passes) := by
  induction passes generalizing e with
  | nil => exact hrel.unchanged e
  | cons p passes ih =>
    have hfirst := hpass p List.mem_cons_self e
    have hrest := ih (fun q hq => hpass q (List.mem_cons_of_mem p hq)) (e.sweepPass ops p).tree
    exact hrel.andThen hfirst hrest

theorem size_sweepPasses_add_steps_le (ops : OperatorSet) (passes : List Pass) (e : Expr ν) :
    (e.sweepPasses ops passes).tree.size + (e.sweepPasses ops passes).steps ≤ e.size := by
  have hpass : ∀ p ∈ passes, ∀ e : Expr ν,
      (e.sweepPass ops p).tree.size + 1 * (e.sweepPass ops p).steps ≤ e.size := by
    intro p _ e
    rw [Nat.one_mul]
    exact size_sweepPass_add_steps_le ops p e
  have hsize := (accumulates_size_add_le 1).sweepPasses ops hpass e
  rwa [Nat.one_mul] at hsize

end Expr
end ExprCalculus
