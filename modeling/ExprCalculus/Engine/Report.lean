import ExprCalculus.Engine.Basic

/-!
# Reports on derivatives

A report goes all the way from a text to the value of its simplified derivative. The first step that fails
ends it.
-/

namespace ExprCalculus

/-- An expression, its derivative by one variable, the simplified derivative, and the values of both ends. -/
structure Report (ν : Type) where
  variableName : String
  source : Expr ν
  value : ν
  derivative : Expr ν
  simplified : Simplified ν
  derivativeValue : ν

def Engine.report {ν : Type} [Arithmetic ν] [Numeral ν] (g : Engine ν) (text x : String) :
    Except (ExprFault ν) (Report ν) := do
  let source ← Expr.read text
  let value ← g.evaluate source
  let derivative ← g.differentiate x source
  let simplified ← g.simplify derivative
  let derivativeValue ← g.evaluate simplified.tree
  return ⟨x, source, value, derivative, simplified, derivativeValue⟩

/-- The report in three lines. -/
def Report.text {ν : Type} [Numeral ν] (r : Report ν) : String :=
  "expression: " ++ r.source.infixText ++ " = " ++ Numeral.write r.value
    ++ "\nd/d" ++ r.variableName ++ ": " ++ r.derivative.infixText
    ++ "\nsimplified (" ++ toString r.simplified.steps ++ " rewrite(s)): "
    ++ r.simplified.tree.infixText ++ " = " ++ Numeral.write r.derivativeValue

end ExprCalculus
