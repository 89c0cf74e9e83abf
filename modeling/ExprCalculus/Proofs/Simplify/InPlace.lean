import ExprCalculus.Proofs.Simplify.Swept

/-!
# Passes in place

On a tree whose operators have been checked a pass in place never stops, and does just what the pass is to do. That
covers every later pass, for a pass leaves the operators their operands.
-/

namespace ExprCalculus

variable {ν : Type}

theorem Rewritten.done_andThen {s t : Simplified ν} {next : Expr ν → Rewritten ν}
    (h : next s.tree = .done t) : (done s).andThen next = .done ⟨t.tree, s.steps + t.steps⟩ := by
  simp [andThen, done, h, Except.map]

theorem Rewritten.result_eq_ok_iff {r : Rewritten ν} {s : Simplified ν} :
    r.result = .ok s ↔ r = .done s := by
  obtain ⟨tree, outcome⟩ := r
  obtain ⟨tree', steps'⟩ := s
  cases outcome <;> simp [result, done, Except.map]

theorem Rewritten.done_inj {s t : Simplified ν} (h : done s = done t) : s = t := by
  rw [← result_eq_ok_iff] at h
  exact Except.ok.inj h

namespace Expr

variable {ops : OperatorSet} {p : Pass}

/-! ### One node -/

theorem literalOperands_of_fits {a : Atom ν} {op : Operator} {l r : Expr ν} (h : op.fits l r = true) :
    (node a l r).literalOperands op = .ok (l.literal?, r.literal?) := by
  refine bind_unit_eq_ok_iff.2 ⟨validateOperands_eq_ok_iff.2 h, ?_⟩
  cases harity : op.arity with
  | unary =>
    obtain ⟨_, rfl⟩ := (Operator.fits_unary harity).1 h
    have hleft : (node a l empty).operand .left op.symbol = .ok l := operand_left_of_fits h
    simp only [hleft]
    rfl
  | binary =>
    have hleft : (node a l r).operand .left op.symbol = .ok l := operand_left_of_fits h
    have hright : (node a l r).operand .right op.symbol = .ok r := operand_right_of_fits harity h
    simp only [hleft, hright]
    rfl

variable [Arithmetic ν]

theorem takeOperand_of_identity? {a : Atom ν} {op : Operator} {l r : Expr ν} {side : Side}
    (hfits : op.fits l r = true) (h : op.identity? l r = some ((node a l r).child side)) :
    (node a l r).takeOperand op side = .ok ((node a l r).child side) := by
  have hne : ((node a l r).child side).isEmpty = false := isEmpty_of_replace? (p := .identities) hfits h
  simp [takeOperand, hne]

/-- At an operator with its operands no fault is possible: none of them is missing, and none gets lost. -/
theorem replaceRoot?_of_fits {a : Atom ν} {op : Operator} {l r : Expr ν} (h : op.fits l r = true) :
    (node a l r).replaceRoot? p op = .ok (p.replace? op l r) := by
  refine bind_eq_ok_iff.2 ⟨_, literalOperands_of_fits h, ?_⟩
  cases p with
  | fold => exact congrArg Except.ok Operator.constant?_eq.symm
  | identities =>
    have hidentity := Operator.identity?_eq op l r
    simp only [Pass.replace?]
    cases hreplacement : op.replacement? l.literal? r.literal? with
    | none =>
      rw [hreplacement] at hidentity
      exact congrArg Except.ok hidentity.symm
    | some replacement =>
      rw [hreplacement] at hidentity
      cases replacement with
      | number v => exact congrArg Except.ok hidentity.symm
      | operand side =>
        have hchild : Replacement.tree l r (.operand side) = (node a l r).child side := by cases side <;> rfl
        rw [Option.map_some, hchild] at hidentity
        rw [hidentity]
        exact bind_eq_ok_iff.2 ⟨_, takeOperand_of_identity? h hidentity, rfl⟩

theorem rewriteRoot_eq {a : Atom ν} {l r : Expr ν} (h : (node a l r).HasOperands ops) :
    (node a l r).rewriteRoot ops p =
      .done (match ops.ruleOf p.replace? a l r with
        | some e => ⟨e, 1⟩
        | none => ⟨node a l r, 0⟩) := by
  cases hop : ops.operator? a with
  | none => simp [rewriteRoot, atom?, hop, OperatorSet.ruleOf, Rewritten.unchanged, Rewritten.done]
  | some op =>
    have hfits : op.fits l r = true := h op hop
    have hreplace := replaceRoot?_of_fits (a := a) (p := p) hfits
    rw [OperatorSet.ruleOf_of_operator hop, if_pos hfits]
    simp only [rewriteRoot, atom?, Option.bind_some, hop, hreplace]
    cases p.replace? op l r <;> rfl

/-! ### Passes -/

theorem sweepPass_node (a : Atom ν) (l r : Expr ν) :
    (node a l r).sweepPass ops p =
      match ops.ruleOf p.replace? a (l.sweepPass ops p).tree (r.sweepPass ops p).tree with
      | some e => ⟨e, (l.sweepPass ops p).steps + (r.sweepPass ops p).steps + 1⟩
      | none => ⟨node a (l.sweepPass ops p).tree (r.sweepPass ops p).tree,
          (l.sweepPass ops p).steps + (r.sweepPass ops p).steps⟩ := rfl

theorem sweepInPlace_eq {e : Expr ν} (h : e.validateOperators ops = .ok ()) :
    e.sweepInPlace ops p = .done (e.sweepPass ops p) := by
  induction e with
  | empty => rfl
  | node a l r ihl ihr =>
    obtain ⟨hroot, hlvalid, hrvalid⟩ := validateOperators_node_eq_ok_iff.1 h
    have hchildren : ((Rewritten.done (l.sweepPass ops p)).within fun l' => node a l' r).andThen
        (fun _ => (Rewritten.done (r.sweepPass ops p)).within (node a (l.sweepPass ops p).tree)) =
          .done ⟨node a (l.sweepPass ops p).tree (r.sweepPass ops p).tree,
            (l.sweepPass ops p).steps + (r.sweepPass ops p).steps⟩ :=
      Rewritten.done_andThen (s := ⟨_, _⟩) (t := ⟨_, _⟩) rfl
    -- The rule meets the children as the pass has left them, and they are as many as before.
    have hkept : (node a (l.sweepPass ops p).tree (r.sweepPass ops p).tree).HasOperands ops :=
      HasOperands.sweepPass hroot
    simp only [sweepInPlace, ihl hlvalid, ihr hrvalid]
    refine (congrArg (Rewritten.andThen · _) hchildren).trans ?_
    rw [Rewritten.done_andThen (rewriteRoot_eq hkept), sweepPass_node]
    cases ops.ruleOf p.replace? a (l.sweepPass ops p).tree (r.sweepPass ops p).tree <;> rfl

theorem passesInPlace_eq {e : Expr ν} (h : e.validateOperators ops = .ok ()) (passes : List Pass) :
    e.passesInPlace ops passes = .done (e.sweepPasses ops passes) := by
  induction passes generalizing e with
  | nil => rfl
  | cons p passes ih =>
    rw [passesInPlace, sweepInPlace_eq h]
    exact Rewritten.done_andThen (ih (validateOperators_sweepPass h))

theorem optimizeInPlace_eq {e : Expr ν} (h : e.checkOperators ops = .ok ()) (passes : List Pass) :
    e.optimizeInPlace ops passes = .done (e.sweepPasses ops passes) := by
  have hvalid := (checkOperators_eq_ok_iff.1 h).2
  simp only [optimizeInPlace, h, passesInPlace_eq hvalid]

theorem optimizeInPlace_of_fault {e : Expr ν} {fault : ExprFault ν} (h : e.checkOperators ops = .error fault)
    (passes : List Pass) : e.optimizeInPlace ops passes = .stopped e fault := by
  simp only [optimizeInPlace, h]

theorem optimize_eq_ok_iff {passes : List Pass} {e : Expr ν} {s : Simplified ν} :
    e.optimize ops passes = .ok s ↔
      e.isEmpty = false ∧ e.validateOperators ops = .ok () ∧ e.sweepPasses ops passes = s := by
  rw [← and_assoc, ← checkOperators_eq_ok_iff, optimize, Rewritten.result_eq_ok_iff]
  cases h : e.checkOperators ops with
  | error fault => simp [optimizeInPlace_of_fault h, Rewritten.stopped, Rewritten.done]
  | ok _ =>
    rw [optimizeInPlace_eq h, ← Rewritten.result_eq_ok_iff]
    simp [Rewritten.done, Rewritten.result, Except.map]

end Expr
end ExprCalculus
