import ExprCalculus.Proofs.Simplify.AllOrNothing

/-!
# Optimizations one after the other

Neither the checks before a round nor the early end of the rounds show in the result, so optimizations are put together
as lists of passes are: one after the other they do what a single one with the passes of both does. Faults are no
exception, for they are found before anything has been done.
-/

namespace ExprCalculus

variable {ν : Type}

namespace Rewritten

theorem unchanged_andThen (e : Expr ν) (next : Expr ν → Rewritten ν) : (unchanged e).andThen next = next e := by
  cases h : next e with
  | mk tree outcome => cases outcome <;> simp [unchanged, andThen, h, Except.map]

theorem andThen_unchanged (s : Rewritten ν) : s.andThen unchanged = s := by
  obtain ⟨tree, outcome⟩ := s
  cases outcome <;> rfl

end Rewritten

namespace Optimization

variable [Arithmetic ν] {ops : OperatorSet}

theorem passes_of_isIdle {o : Optimization} (h : o.IsIdle) : o.passes = [] := by
  rcases eq_of_isIdle h with ⟨passes, rfl⟩ | rfl
  · rfl
  · rfl

/-- Whatever an optimization has done, its passes have done. -/
theorem eq_sweepPasses_of_runInPlace {o : Optimization} {e : Expr ν} {s : Simplified ν}
    (h : o.runInPlace ops e = .done s) : s = e.sweepPasses ops o.passes := by
  by_cases ho : o.IsIdle
  · rw [runInPlace_of_isIdle ho] at h
    rw [passes_of_isIdle ho]
    exact (Rewritten.done_inj (s := .unchanged e) h).symm
  · rcases runInPlace_cases ho ops e with ⟨fault, _, hstopped⟩ | ⟨_, hcheck, _, _⟩
    · rw [hstopped] at h
      cases congrArg Rewritten.outcome h
    · rw [runInPlace_eq_sweepPasses hcheck o] at h
      exact (Rewritten.done_inj h).symm

/-- An optimization with the passes of two others does what these do one after the other. It must ask for a round where
one of the others does, since faults are found before the first round. -/
theorem runInPlace_of_append {o first second : Optimization} (hpasses : o.passes = first.passes ++ second.passes)
    (hidle : o.IsIdle ↔ first.IsIdle ∧ second.IsIdle) (e : Expr ν) :
    o.runInPlace ops e = (first.runInPlace ops e).andThen (second.runInPlace ops) := by
  cases hcheck : e.checkOperators ops with
  | ok _ =>
    have hkept := Expr.keptByPasses_check.sweepPasses first.passes hcheck
    have hsecond := Rewritten.done_andThen (runInPlace_eq_sweepPasses hkept second)
    rw [runInPlace_eq_sweepPasses hcheck o, runInPlace_eq_sweepPasses hcheck first, hsecond, hpasses,
      Expr.sweepPasses_append, Simplified.andThen]
  | error fault =>
    by_cases hfirst : first.IsIdle
    · rw [runInPlace_of_isIdle hfirst, Rewritten.unchanged_andThen]
      by_cases hsecond : second.IsIdle
      · rw [runInPlace_of_isIdle hsecond, runInPlace_of_isIdle (hidle.2 ⟨hfirst, hsecond⟩)]
      · rw [runInPlace_of_fault hsecond hcheck, runInPlace_of_fault (fun ho => hsecond (hidle.1 ho).2) hcheck]
    · rw [runInPlace_of_fault hfirst hcheck, runInPlace_of_fault (fun ho => hfirst (hidle.1 ho).1) hcheck]
      rfl

theorem runInPlace_rounds_one (passes : List Pass) (e : Expr ν) :
    (rounds passes 1).runInPlace ops e = (once passes).runInPlace ops e := by
  simp only [runInPlace, Expr.optimizeRoundsInPlace]
  split
  · rfl
  · exact Rewritten.andThen_unchanged _

/-- Two lists of passes in one call do what two calls do, a single round is a call without rounds, and rounds may be
divided among two calls. The trees, the counts and the faults are the same, whatever the tree: the second call is made
on the tree that the first one has left, unless that stopped with a fault, and their counts are added. -/
theorem runInPlace_composes (ops : OperatorSet) (p q : List Pass) (m n : Nat) (e : Expr ν) :
    (once (p ++ q)).runInPlace ops e = ((once p).runInPlace ops e).andThen ((once q).runInPlace ops) ∧
      (rounds p 1).runInPlace ops e = (once p).runInPlace ops e ∧
      (rounds p (m + n)).runInPlace ops e =
        ((rounds p m).runInPlace ops e).andThen ((rounds p n).runInPlace ops) := by
  refine ⟨runInPlace_of_append rfl (by simp [IsIdle]) e, runInPlace_rounds_one p e, ?_⟩
  refine runInPlace_of_append ?_ ?_ e
  · simp only [passes]
    rw [← List.flatten_append, List.replicate_append_replicate]
  · simp only [IsIdle, Nat.add_eq_zero_iff]

end Optimization
end ExprCalculus
