import ExprCalculus.Expr.Derivative
import ExprCalculus.Expr.Reader
import ExprCalculus.Expr.Value
import ExprCalculus.Simplify.Optimization

/-!
# Engines

An engine holds what the operations on expressions share: the operators in use, the values of the variables,
the passes of simplification, and how often they are repeated.
-/

namespace ExprCalculus

structure Engine (ν : Type) where
  operators : OperatorSet
  bindings : Bindings ν
  passes : List Pass
  /-- With a limit, the passes run in rounds until stable; without one, they run once. -/
  stableRounds : Option Nat

namespace Engine

variable {ν : Type}

/-- All operators, no variables, and one round of all passes. -/
def standard : Engine ν := ⟨.full, ∅, Pass.all, none⟩

def ofBindings (bindings : Bindings ν) : Engine ν := { (standard : Engine ν) with bindings }

def ofOperators (operators : OperatorSet) (bindings : Bindings ν) : Engine ν :=
  { (standard : Engine ν) with operators, bindings }

def bind (g : Engine ν) (name : String) (value : ν) : Engine ν :=
  { g with bindings := g.bindings.insert name value }

variable [Arithmetic ν]

def evaluate (g : Engine ν) (e : Expr ν) : Except (ExprFault ν) ν := e.evaluate g.operators g.bindings

def differentiate (g : Engine ν) (x : String) (e : Expr ν) : Except (ExprFault ν) (Expr ν) :=
  e.differentiate g.operators g.bindings x

def optimize (g : Engine ν) (passes : List Pass) (e : Expr ν) :
    Except (ExprFault ν) (Simplified ν) :=
  e.optimize g.operators passes

def optimizeRounds (g : Engine ν) (limit : Nat) (e : Expr ν) :
    Except (ExprFault ν) (Simplified ν) :=
  e.optimizeRounds g.operators g.passes limit

def simplify (g : Engine ν) (e : Expr ν) : Except (ExprFault ν) (Simplified ν) :=
  match g.stableRounds with
  | some limit => g.optimizeRounds limit e
  | none => g.optimize g.passes e

end Engine
end ExprCalculus
