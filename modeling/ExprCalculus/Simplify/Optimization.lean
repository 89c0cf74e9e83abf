import ExprCalculus.Simplify.InPlace

/-!
# Optimization

Passes run once, or in rounds until a round changes nothing. Before the first pass of a round the tree must not be
empty, and the operators in use must have just their operands.
-/

namespace ExprCalculus

variable {ν : Type} [Arithmetic ν]

namespace Expr

omit [Arithmetic ν] in
/-- What has to be in order before a tree is rewritten. -/
def checkOperators (ops : OperatorSet) (e : Expr ν) : Except (ExprFault ν) Unit := do
  let e ← e.nonempty
  e.validateOperators ops

def optimizeInPlace (ops : OperatorSet) (passes : List Pass) (e : Expr ν) : Rewritten ν :=
  match e.checkOperators ops with
  | .ok () => e.passesInPlace ops passes
  | .error fault => .stopped e fault

/-- Rounds of passes, until one changes nothing or the limit is reached. -/
def optimizeRoundsInPlace (ops : OperatorSet) (passes : List Pass) : Nat → Expr ν → Rewritten ν
  | 0, e => .unchanged e
  | limit + 1, e =>
    let round := e.optimizeInPlace ops passes
    match round.outcome with
    | .ok 0 => round
    | _ => round.andThen (optimizeRoundsInPlace ops passes limit)

/-- Runs every pass once. -/
def optimize (ops : OperatorSet) (passes : List Pass) (e : Expr ν) :
    Except (ExprFault ν) (Simplified ν) :=
  (e.optimizeInPlace ops passes).result

def foldLiterals (ops : OperatorSet) (e : Expr ν) : Except (ExprFault ν) (Simplified ν) :=
  e.optimize ops [.fold]

def applyIdentities (ops : OperatorSet) (e : Expr ν) : Except (ExprFault ν) (Simplified ν) :=
  e.optimize ops [.identities]

def optimizeRounds (ops : OperatorSet) (passes : List Pass) (limit : Nat) (e : Expr ν) :
    Except (ExprFault ν) (Simplified ν) :=
  (e.optimizeRoundsInPlace ops passes limit).result

def stabilize (ops : OperatorSet) (limit : Nat) (e : Expr ν) :
    Except (ExprFault ν) (Simplified ν) :=
  e.optimizeRounds ops Pass.all limit

end Expr

/-! ### The operations of an optimizer -/

inductive Optimization where
  | foldLiterals
  | applyIdentities
  | single (p : Pass)
  | once (passes : List Pass)
  | rounds (passes : List Pass) (limit : Nat)
  | stabilize (limit : Nat)

namespace Optimization

def run (ops : OperatorSet) (o : Optimization) (e : Expr ν) : Except (ExprFault ν) (Simplified ν) :=
  match o with
  | foldLiterals => e.foldLiterals ops
  | applyIdentities => e.applyIdentities ops
  | single p => e.optimize ops [p]
  | once passes => e.optimize ops passes
  | rounds passes limit => e.optimizeRounds ops passes limit
  | stabilize limit => e.stabilize ops limit

def runInPlace (ops : OperatorSet) (o : Optimization) (e : Expr ν) : Rewritten ν :=
  match o with
  | foldLiterals => e.optimizeInPlace ops [.fold]
  | applyIdentities => e.optimizeInPlace ops [.identities]
  | single p => e.optimizeInPlace ops [p]
  | once passes => e.optimizeInPlace ops passes
  | rounds passes limit => e.optimizeRoundsInPlace ops passes limit
  | stabilize limit => e.optimizeRoundsInPlace ops Pass.all limit

theorem result_runInPlace (ops : OperatorSet) (o : Optimization) (e : Expr ν) :
    (o.runInPlace ops e).result = o.run ops e := by
  cases o <;> rfl

/-- No round is asked for. -/
def IsIdle : Optimization → Prop
  | rounds _ limit | stabilize limit => limit = 0
  | _ => False

end Optimization
end ExprCalculus
