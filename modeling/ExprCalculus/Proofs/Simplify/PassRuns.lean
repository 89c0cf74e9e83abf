import ExprCalculus.Proofs.Simplify.InPlace

/-!
# Optimizations as runs of passes

On a tree that passes the check an optimization does what its passes do one after the other, without any further check.
That rounds end early makes no difference: a round without steps would only be followed by others without steps. So
what is to be known about optimizations is known from lists of passes, and for any property of trees that passes keep
`Expr.KeptByPasses.runInPlace` says that optimizations keep it.
-/

namespace ExprCalculus

variable {ν : Type} [Arithmetic ν]

namespace Expr

variable {ops : OperatorSet}

/-! ### Lists of passes -/

theorem sweepPasses_append (p q : List Pass) (e : Expr ν) :
    e.sweepPasses ops (p ++ q) = (e.sweepPasses ops p).andThen (sweepPasses ops q) := by
  induction p generalizing e with
  | nil => exact (Simplified.unchanged_andThen e _).symm
  | cons first p ih =>
    simp only [List.cons_append, sweepPasses, Simplified.andThen_assoc]
    rw [funext ih]

theorem sweepPass_eq_unchanged_of_round {passes : List Pass} {e : Expr ν}
    (h : (e.sweepPasses ops passes).steps = 0) : ∀ p ∈ passes, e.sweepPass ops p = .unchanged e := by
  induction passes with
  | nil =>
    intro p hp
    cases hp
  | cons p passes ih =>
    simp only [sweepPasses, Simplified.andThen, Nat.add_eq_zero_iff] at h
    obtain ⟨hfirst, hrest⟩ := h
    have hsame : e.sweepPass ops p = .unchanged e := sweep_eq_unchanged hfirst
    rw [hsame] at hrest
    intro q hq
    rcases List.mem_cons.1 hq with rfl | hq
    · exact hsame
    · exact ih hrest q hq

theorem sweepPasses_eq_unchanged {passes : List Pass} {e : Expr ν} (h : (e.sweepPasses ops passes).steps = 0) :
    e.sweepPasses ops passes = .unchanged e := by
  induction passes with
  | nil => rfl
  | cons p passes ih =>
    have hsame := sweepPass_eq_unchanged_of_round h p List.mem_cons_self
    simp only [sweepPasses, hsame, Simplified.unchanged_andThen] at h ⊢
    exact ih h

/-- Rounds go on without steps where one of them takes none. -/
theorem sweepPasses_replicate_of_stable {passes : List Pass} {e : Expr ν}
    (h : e.sweepPasses ops passes = .unchanged e) (rounds : Nat) :
    e.sweepPasses ops (List.replicate rounds passes).flatten = .unchanged e := by
  induction rounds with
  | zero => rfl
  | succ rounds ih =>
    rw [List.replicate_succ, List.flatten_cons, sweepPasses_append, h, Simplified.unchanged_andThen, ih]

/-! ### What passes keep -/

/-- Trees of this kind can be rewritten, and every pass makes trees of this kind of them. -/
structure KeptByPasses (ops : OperatorSet) (q : Expr ν → Prop) : Prop where
  check : ∀ {e : Expr ν}, q e → e.checkOperators ops = .ok ()
  sweepPass : ∀ {e : Expr ν} (p : Pass), q e → q (e.sweepPass ops p).tree

/-- In particular, a tree that can be rewritten can be rewritten again. -/
theorem keptByPasses_check : KeptByPasses ops fun e : Expr ν => e.checkOperators ops = .ok () :=
  ⟨fun h => h, fun _ h => checkOperators_sweepPass h⟩

theorem KeptByPasses.sweepPasses {q : Expr ν → Prop} (hq : KeptByPasses ops q) (passes : List Pass) {e : Expr ν}
    (he : q e) : q (e.sweepPasses ops passes).tree := by
  induction passes generalizing e with
  | nil => exact he
  | cons p passes ih => exact ih (hq.sweepPass p he)

/-! ### Rounds -/

theorem optimizeRoundsInPlace_eq {e : Expr ν} (h : e.checkOperators ops = .ok ()) (passes : List Pass) (limit : Nat) :
    e.optimizeRoundsInPlace ops passes limit = .done (e.sweepPasses ops (List.replicate limit passes).flatten) := by
  induction limit generalizing e with
  | zero => rfl
  | succ limit ih =>
    have hround := optimizeInPlace_eq h passes
    cases hsteps : (e.sweepPasses ops passes).steps with
    | zero =>
      have hstable := sweepPasses_eq_unchanged hsteps
      rw [hstable] at hround
      rw [sweepPasses_replicate_of_stable hstable]
      simp only [optimizeRoundsInPlace, hround, Rewritten.done, Simplified.unchanged]
    | succ steps =>
      have hkept := keptByPasses_check.sweepPasses passes h
      have hmore := Rewritten.done_andThen (ih hkept)
      rw [List.replicate_succ, List.flatten_cons, sweepPasses_append]
      simp only [optimizeRoundsInPlace, hround]
      simpa [Rewritten.done, hsteps, Simplified.andThen] using hmore

end Expr

/-- The passes of an optimization in their order, as if rounds never ended early. -/
def Optimization.passes : Optimization → List Pass
  | foldLiterals => [.fold]
  | applyIdentities => [.identities]
  | single p => [p]
  | once passes => passes
  | rounds passes limit => (List.replicate limit passes).flatten
  | stabilize limit => (List.replicate limit Pass.all).flatten

variable {ops : OperatorSet}

theorem Optimization.runInPlace_eq_sweepPasses {e : Expr ν} (h : e.checkOperators ops = .ok ()) (o : Optimization) :
    o.runInPlace ops e = .done (e.sweepPasses ops o.passes) := by
  cases o with
  | foldLiterals => exact Expr.optimizeInPlace_eq h [.fold]
  | applyIdentities => exact Expr.optimizeInPlace_eq h [.identities]
  | single p => exact Expr.optimizeInPlace_eq h [p]
  | once passes => exact Expr.optimizeInPlace_eq h passes
  | rounds passes limit => exact Expr.optimizeRoundsInPlace_eq h passes limit
  | stabilize limit => exact Expr.optimizeRoundsInPlace_eq h Pass.all limit

namespace Expr.KeptByPasses

variable {q : Expr ν → Prop} (hq : KeptByPasses ops q)
include hq

theorem runInPlace (o : Optimization) {e : Expr ν} (he : q e) :
    ∃ s, o.runInPlace ops e = .done s ∧ q s.tree :=
  ⟨_, o.runInPlace_eq_sweepPasses (hq.check he), hq.sweepPasses o.passes he⟩

theorem run (o : Optimization) {e : Expr ν} (he : q e) : ∃ s, o.run ops e = .ok s ∧ q s.tree := by
  obtain ⟨s, hs, hkept⟩ := hq.runInPlace o he
  refine ⟨s, ?_, hkept⟩
  rw [← Optimization.result_runInPlace]
  exact Rewritten.result_eq_ok_iff.2 hs

end Expr.KeptByPasses
end ExprCalculus
