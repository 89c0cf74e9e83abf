import ExprCalculus.Number.Basic
import ExprCalculus.Expr.Basic

/-!
# Written forms of expressions

The bracket notation, `{ {x} + {3} }`, puts every node between braces and its atom between its children;
`ExprCalculus.Expr.Reader` reads it back. The infix notation, `(x + 3)`, is for people to read.
-/

namespace ExprCalculus

variable {ν : Type} [Numeral ν]

def Atom.text : Atom ν → String
  | number v => Numeral.write v
  | symbol name => name

namespace Expr

/-- The bracket notation. A leaf is written tight, and all else has one space between its parts. -/
def brackets : Expr ν → String
  | empty => ""
  | node a empty empty => "\x7b" ++ a.text ++ "\x7d"
  | node a l empty => "\x7b " ++ l.brackets ++ " " ++ a.text ++ " \x7d"
  | node a empty r => "\x7b " ++ a.text ++ " " ++ r.brackets ++ " \x7d"
  | node a l r => "\x7b " ++ l.brackets ++ " " ++ a.text ++ " " ++ r.brackets ++ " \x7d"

/-- An atom as an operand: a negative number has parentheses around it. -/
def operandText : Atom ν → String
  | .number v => if Numeral.isNegative v then "(" ++ Numeral.write v ++ ")" else Numeral.write v
  | .symbol name => name

/-- The infix notation. A node with two children is written between them, one with a left child only in
front of it; in all other cases the atom stands alone. -/
def infixText : Expr ν → String
  | empty => ""
  | node a empty _ => operandText a
  | node a l empty => a.text ++ "(" ++ l.infixText ++ ")"
  | node a l r => "(" ++ l.infixText ++ " " ++ a.text ++ " " ++ r.infixText ++ ")"

end Expr
end ExprCalculus
