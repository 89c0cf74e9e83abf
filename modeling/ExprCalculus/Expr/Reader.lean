import ExprCalculus.Fault
import ExprCalculus.Text.Blank

/-!
# Reading the bracket notation

    Expr    := '{' Operand? Token Operand? '}'
    Operand := Expr

Blanks may stand around every part. A right operand needs a left one, and brackets nest at most
`nestingLimit` deep. A token is the longest run of characters that are neither blanks nor braces: a number
if the whole of it is a numeral, otherwise a symbol.

The reader works on the characters that are still to be read and, where it stops, gives them back with the
fault; the byte position of an error follows from how many bytes are left.
-/

namespace ExprCalculus

namespace Reader

variable {ν : Type}

structure Stop where
  rest : List Char
  fault : TextFault

def endsToken (c : Char) : Bool := Text.isBlank c || c == '\x7b' || c == '\x7d'

def isOpening : List Char → Bool
  | '\x7b' :: _ => true
  | _ => false

def readToken (text : List Char) : Except Stop (List Char × List Char) :=
  let token := text.takeWhile fun c => !endsToken c
  if token.isEmpty then .error ⟨text, .noToken⟩
  else .ok (token, text.dropWhile fun c => !endsToken c)

def atomOfToken [Numeral ν] (token : List Char) : Atom ν :=
  match Numeral.read? token with
  | some v => .number v
  | none => .symbol (String.ofList token)

/-- An expression, if one opens here, and the blanks after it. -/
def readOperand (read : List Char → Except Stop (Expr ν × List Char)) (text : List Char) :
    Except Stop (Expr ν × List Char) :=
  if isOpening text then do
    let (e, rest) ← read text
    return (e, Text.skipBlanks rest)
  else return (.empty, text)

/-- One expression at the head of a text, nested at most `levels` deep, and the text after it. -/
def readNode [Numeral ν] : Nat → List Char → Except Stop (Expr ν × List Char)
  | 0, text => .error ⟨text, .nestedTooDeep⟩
  | levels + 1, '\x7b' :: body => do
    let (left, text) ← readOperand (readNode levels) (Text.skipBlanks body)
    let (token, text) ← readToken text
    let text := Text.skipBlanks text
    if left.isEmpty && isOpening text then throw ⟨text, .rightWithoutLeft⟩
    let (right, text) ← readOperand (readNode levels) text
    match text with
    | '\x7d' :: rest => return (.node (atomOfToken token) left right, rest)
    | _ => throw ⟨text, .noClosing⟩
  | _ + 1, text => .error ⟨text, .noOpening⟩

/-- One expression and nothing but blanks around it. -/
def readAll [Numeral ν] (text : List Char) : Except Stop (Expr ν) := do
  let (e, rest) ← readNode nestingLimit (Text.skipBlanks text)
  let rest := Text.skipBlanks rest
  if rest.isEmpty then return e else throw ⟨rest, .trailingText⟩

def byteCount (text : List Char) : Nat := text.foldr (fun c bytes => c.utf8Size + bytes) 0

/-- The error at the place in the text where reading stopped. -/
def Stop.error (text : List Char) (s : Stop) : ExprFault ν :=
  .malformed (byteCount text - byteCount s.rest) s.fault

end Reader

/-- Reads the bracket notation of one expression. -/
def Expr.read {ν : Type} [Numeral ν] (text : String) : Except (ExprFault ν) (Expr ν) :=
  (Reader.readAll text.toList).mapError (Reader.Stop.error text.toList)

end ExprCalculus
