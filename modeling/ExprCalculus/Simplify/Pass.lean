import ExprCalculus.Simplify.Rule
import ExprCalculus.Text.Caseless

/-!
# Passes

A pass is one sweep with one of the rules, and passes run in a list. What a pass is to make of a tree is said
here as a function of the tree; `ExprCalculus.Simplify.InPlace` is how a pass goes about it.
-/

namespace ExprCalculus

variable {ν : Type} [Arithmetic ν]

inductive Pass where
  | fold
  | identities
  deriving DecidableEq

namespace Pass

/-- All passes, in the order in which they run unless others are asked for. -/
def all : List Pass := [fold, identities]

def title : Pass → String
  | fold => "fold"
  | identities => "identities"

def longTitle : Pass → String
  | fold => "constant_folding"
  | identities => "identity_elimination"

/-- The pass with this name, short or long, in any mixture of cases. -/
def ofName? (name : String) : Option Pass :=
  all.find? fun p => Text.sameCaseless name p.title || Text.sameCaseless name p.longTitle

def unknownNameMessage : String := "Matching variant not found"

/-- What a pass does at one operator in use. -/
def replace? : Pass → Operator → Expr ν → Expr ν → Option (Expr ν)
  | fold => Operator.constant?
  | identities => Operator.identity?

end Pass

namespace Expr

def sweepPass (ops : OperatorSet) (p : Pass) (e : Expr ν) : Simplified ν :=
  e.sweep (ops.ruleOf p.replace?)

def sweepPasses (ops : OperatorSet) : List Pass → Expr ν → Simplified ν
  | [], e => .unchanged e
  | p :: passes, e => (e.sweepPass ops p).andThen (sweepPasses ops passes)

end Expr
end ExprCalculus
