import ExprCalculus.Number.Binary64
import ExprCalculus.Proofs.Derivative.Usable

/-!
# Runs of differentiations and optimizations

A tree is differentiated and optimized over and over, in any order. What each step needs and leaves is
`Expr.Usable`, so once a derivative has been found no later step of a run fails.
-/

namespace ExprCalculus

variable {ν : Type} [Arithmetic ν]

/-- What is done with a tree: it gives way to its derivative, or it is optimized. -/
inductive Step where
  | differentiate (x : String)
  | optimize (o : Optimization)

namespace Step

variable {ops : OperatorSet} {bindings : Bindings ν}

def apply (ops : OperatorSet) (bindings : Bindings ν) (e : Expr ν) : Step → Except (ExprFault ν) (Expr ν)
  | differentiate x => e.differentiate ops bindings x
  | optimize o => (o.run ops e).map Simplified.tree

/-- All trees of a run in order, the one that it starts from included. -/
def follow (ops : OperatorSet) (bindings : Bindings ν) :
    List Step → Expr ν → Except (ExprFault ν) (List (Expr ν))
  | [], e => .ok [e]
  | step :: steps, e => do
    let e' ← step.apply ops bindings e
    return e :: (← follow ops bindings steps e')

/-- A derivative is asked for by a bound variable only. -/
def IsAllowed (ops : OperatorSet) (bindings : Bindings ν) : Step → Prop
  | differentiate x => ops.find? x = none ∧ bindings.contains x = true
  | optimize _ => True

theorem usable_apply (hops : ops.IsClosed) {step : Step} (hstep : step.IsAllowed ops bindings) {e : Expr ν}
    (he : e.Usable ops bindings) : ∃ e', step.apply ops bindings e = .ok e' ∧ e'.Usable ops bindings := by
  cases step with
  | differentiate x => exact he.differentiate hops hstep.1 hstep.2
  | optimize o =>
    obtain ⟨s, hs, hkept⟩ := Expr.keptByPasses_usable.run o he
    exact ⟨s.tree, congrArg (Except.map Simplified.tree) hs, hkept⟩

theorem usable_follow (hops : ops.IsClosed) {steps : List Step}
    (hsteps : ∀ step ∈ steps, step.IsAllowed ops bindings) {e : Expr ν} (he : e.Usable ops bindings) :
    ∃ trees, follow ops bindings steps e = .ok trees ∧ trees.length = steps.length + 1 ∧
      ∀ t ∈ trees, t.Usable ops bindings := by
  induction steps generalizing e with
  | nil =>
    refine ⟨[e], rfl, rfl, ?_⟩
    intro t ht
    rw [List.mem_singleton.1 ht]
    exact he
  | cons step steps ih =>
    obtain ⟨e', hstep, he'⟩ := usable_apply hops (hsteps step List.mem_cons_self) he
    obtain ⟨trees, hrun, hlength, htrees⟩ := ih (fun s hs => hsteps s (List.mem_cons_of_mem step hs)) he'
    refine ⟨e :: trees, ?_, congrArg (· + 1) hlength, ?_⟩
    · exact bind_eq_ok_iff.2 ⟨e', hstep, bind_eq_ok_iff.2 ⟨trees, hrun, rfl⟩⟩
    · intro t ht
      rcases List.mem_cons.1 ht with rfl | ht
      · exact he
      · exact htrees t ht

/-- With all operators in use, a tree that can be differentiated can be differentiated by bound variables and
optimized any number of times, in any order. Each tree on the way has a value. -/
theorem follow_of_differentiate {bindings : Bindings ν} {e d : Expr ν} {x : String}
    (h : e.differentiate .full bindings x = .ok d) {steps : List Step}
    (hsteps : ∀ step ∈ steps, step.IsAllowed .full bindings) :
    ∃ trees, follow .full bindings steps e = .ok trees ∧ trees.length = steps.length + 1 ∧
      ∀ t ∈ trees, ∃ v, t.evaluate .full bindings = .ok v := by
  have he := (Expr.usable_of_differentiate h).1
  obtain ⟨trees, hrun, hlength, htrees⟩ := usable_follow OperatorSet.isClosed_full hsteps he
  exact ⟨trees, hrun, hlength, fun t ht => (htrees t ht).value⟩

/-- `x ^ 3 / sin y`. -/
def ratio : Expr Float :=
  Operator.division.tree (Operator.power.tree (.symbol "x") (.number 3)) (Operator.sine.tree (.symbol "y") .empty)

def ratioBindings : Bindings Float := ⟨[("x", 2), ("y", 0.5)]⟩

def ratioSteps : List Step :=
  [differentiate "x", optimize (.rounds [.identities, .fold] 4), differentiate "y", optimize .applyIdentities,
    differentiate "x"]

theorem follow_of_differentiate_ratio :
    ∃ d, ratio.differentiate .full ratioBindings "x" = .ok d ∧
      (∀ step ∈ ratioSteps, step.IsAllowed .full ratioBindings) ∧
        ∃ trees, follow .full ratioBindings ratioSteps ratio = .ok trees ∧ trees.length = ratioSteps.length + 1 ∧
          ∀ t ∈ trees, ∃ v, t.evaluate .full ratioBindings = .ok v := by
  have hsteps : ∀ step ∈ ratioSteps, step.IsAllowed .full ratioBindings := by
    simp only [ratioSteps, List.forall_mem_cons]
    exact ⟨⟨rfl, rfl⟩, trivial, ⟨rfl, rfl⟩, trivial, ⟨rfl, rfl⟩, List.forall_mem_nil _⟩
  exact ⟨_, rfl, hsteps, follow_of_differentiate (x := "x") rfl hsteps⟩

end Step
end ExprCalculus
