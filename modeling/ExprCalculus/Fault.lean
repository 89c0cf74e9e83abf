import ExprCalculus.Operator
import ExprCalculus.Expr.Notation

/-!
# Faults of expressions

`ExprFault` lists the causes for which reading, editing, evaluating, differentiating or simplifying an
expression can fail. Each cause is of one of five kinds, and its message is the kind's heading followed by
the cause's detail.
-/

namespace ExprCalculus

/-- The kinds of faults. A fault of the text knows the byte at which reading stopped. -/
inductive FaultKind where
  | malformedText (position : Nat)
  | treeMisuse
  | invalidInput
  | unsupportedOperation
  | structuralDefect
  deriving DecidableEq

namespace FaultKind

def heading : FaultKind → String
  | malformedText position => "Syntax error at byte " ++ toString position
  | treeMisuse => "Tree error"
  | invalidInput => "Invalid input"
  | unsupportedOperation => "Unsupported operation"
  | structuralDefect => "Structural error"

def message (kind : FaultKind) (detail : String) : String := kind.heading ++ ": " ++ detail

def isMalformedText : FaultKind → Bool
  | malformedText _ => true
  | _ => false

end FaultKind

/-- The deepest nesting of brackets that is read. -/
def nestingLimit : Nat := 512

inductive TextFault where
  | nestedTooDeep
  | noOpening
  | noToken
  | rightWithoutLeft
  | noClosing
  | trailingText
  deriving DecidableEq

namespace TextFault

def detail : TextFault → String
  | nestedTooDeep => "brackets nested deeper than " ++ toString nestingLimit ++ " levels"
  | noOpening => "expected '\x7b'"
  | noToken => "expected a number or a symbol"
  | rightWithoutLeft => "right operand without a left operand"
  | noClosing => "expected '\x7d'"
  | trailingText => "unexpected text after the outermost expression"

end TextFault

inductive ExprFault (ν : Type) where
  | malformed (position : Nat) (fault : TextFault)
  | rightBeforeLeft (parent : Atom ν)
  | branchOccupied (side : Side)
  | leftBeforeRight (parent : Atom ν)
  | branchEmpty (side : Side)
  | rootPresent
  | emptyTree
  | notBoundVariable (name : String)
  | unresolved (name : String)
  | exponentNotLiteral (exponent : Expr ν)
  | operatorMissing (op : Operator)
  | arityMismatch (op : Operator) (found : Nat)
  | leafWithChildren (atom : Atom ν) (found : Nat)
  | operandMissing (operator : String) (side : Side)
  | operandLost (op : Operator) (side : Side)
  deriving DecidableEq

namespace ExprFault

variable {ν : Type}

def kind : ExprFault ν → FaultKind
  | malformed position _ => .malformedText position
  | rightBeforeLeft _ | branchOccupied _ | leftBeforeRight _ | branchEmpty _ => .treeMisuse
  | rootPresent | emptyTree => .treeMisuse
  | notBoundVariable _ | unresolved _ => .invalidInput
  | exponentNotLiteral _ | operatorMissing _ => .unsupportedOperation
  | arityMismatch .. | leafWithChildren .. => .structuralDefect
  | operandMissing .. | operandLost .. => .structuralDefect

def inQuotes (text : String) : String := "'" ++ text ++ "'"

def detail [Numeral ν] : ExprFault ν → String
  | malformed _ fault => fault.detail
  | rightBeforeLeft parent =>
    "cannot attach a right child under " ++ inQuotes parent.text ++ " without a left child"
  | branchOccupied side => side.title ++ " branch is already occupied"
  | leftBeforeRight parent =>
    "cannot delete the left branch of " ++ inQuotes parent.text ++ " while a right branch exists"
  | branchEmpty side => side.title ++ " branch is empty"
  | rootPresent => "tree already has a root"
  | emptyTree => "the tree is empty"
  | notBoundVariable name =>
    "cannot differentiate with respect to " ++ inQuotes name ++ ": not a bound variable"
  | unresolved name =>
    "symbol " ++ inQuotes name ++ " is neither an operator nor a bound variable"
  | exponentNotLiteral exponent =>
    "power rule needs a numeric exponent, found " ++ exponent.infixText
  | operatorMissing op => "operator " ++ op.title ++ " is not registered"
  | arityMismatch op found =>
    "operator " ++ inQuotes op.symbol ++ " expects " ++ toString op.arity.operands
      ++ " operand(s), found " ++ toString found
  | leafWithChildren atom found =>
    inQuotes atom.text ++ " is not an operator but has " ++ toString found ++ " child(ren)"
  | operandMissing operator side =>
    "operator " ++ inQuotes operator ++ " is missing its " ++ side.word ++ " operand"
  | operandLost op side =>
    "operator " ++ inQuotes op.symbol ++ " lost its " ++ side.title ++ " operand"

def message [Numeral ν] (f : ExprFault ν) : String := f.kind.message f.detail

end ExprFault
end ExprCalculus
