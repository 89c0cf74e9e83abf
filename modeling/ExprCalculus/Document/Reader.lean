import ExprCalculus.Dictionary
import ExprCalculus.Document.Value
import ExprCalculus.Text.Blank
import ExprCalculus.Text.Quoted

/-!
# Reading task documents

    Document := Section+
    Section  := Word Blank* Pair+
    Pair     := Word ':' Values
    Values   := (Value (',' Value)*)?

Spaces and tabs may stand around `:` and `,`, and any blanks after a pair. A word is made of ASCII letters,
digits and underscores and does not start with a digit. A value is a run of characters other than commas,
semicolons, spaces, tabs and line ends. A key or title that comes again replaces or extends what came before.

Readers take the text from where they are and give back what is left; `repeatedly` is the one loop among them.
-/

namespace ExprCalculus

namespace Document

inductive Expected where
  /-- A word or a colon. -/
  | mark
  | value
  deriving DecidableEq

structure Stop where
  rest : List Char
  expected : Expected
  deriving DecidableEq

namespace Stop

def code : Expected → String
  | .mark => "Tag"
  | .value => "TakeWhile1"

def message (s : Stop) : String :=
  "Error(Error \x7b input: " ++ Text.quoted s.rest ++ ", code: " ++ code s.expected ++ " \x7d)"

end Stop

abbrev Reading (α : Type) := α × List Char

/-! ### Repetition -/

/-- Reads on as long as the reader succeeds and uses up some of the text. -/
def repeatedly {α : Type} (read : List Char → Except Stop (Reading α)) (text : List Char) :
    Reading (List α) :=
  match read text with
  | .error _ => ([], text)
  | .ok (a, rest) =>
    if rest.length < text.length then
      let (more, rest) := repeatedly read rest
      (a :: more, rest)
    else ([], text)
termination_by text.length

theorem repeatedly_of_error {α : Type} {read : List Char → Except Stop (Reading α)}
    {text : List Char} {s : Stop} (h : read text = .error s) :
    repeatedly read text = ([], text) := by
  rw [repeatedly, h]

theorem repeatedly_of_ok {α : Type} {read : List Char → Except Stop (Reading α)}
    {text rest : List Char} {a : α} (h : read text = .ok (a, rest))
    (hlt : rest.length < text.length) :
    repeatedly read text = (a :: (repeatedly read rest).1, (repeatedly read rest).2) := by
  rw [repeatedly, h]
  simp only [hlt, if_true]

def atLeastOnce {α : Type} (read : List Char → Except Stop (Reading α)) (text : List Char) :
    Except Stop (Reading (List α)) := do
  let (a, rest) ← read text
  let (more, rest) := repeatedly read rest
  return (a :: more, rest)

/-! ### Words and marks -/

def isWordStart (c : Char) : Bool := c.isAlpha || c == '_'

def isWordChar (c : Char) : Bool := c.isAlphanum || c == '_'

/-- A word and nothing after it. -/
def readWord (text : List Char) : Except Stop (Reading String) :=
  match text with
  | [] => .error ⟨text, .mark⟩
  | c :: rest =>
    if isWordStart c then
      .ok (String.ofList (c :: rest.takeWhile isWordChar), rest.dropWhile isWordChar)
    else .error ⟨text, .mark⟩

def readMark (mark : Char) (text : List Char) : Except Stop (Reading Unit) :=
  match Text.skipInlineBlanks text with
  | c :: rest =>
    if c == mark then .ok ((), Text.skipInlineBlanks rest) else .error ⟨c :: rest, .mark⟩
  | [] => .error ⟨[], .mark⟩

/-- A title. The blanks at both ends of what follows go with it. -/
def readTitle (text : List Char) : Except Stop (Reading String) := do
  let (title, rest) ← readWord text
  return (title, Text.trim rest)

def readKey (text : List Char) : Except Stop (Reading String) := readWord text

/-! ### Values -/

def endsValue (c : Char) : Bool :=
  c == ',' || c == ' ' || c == '\t' || c == '\r' || c == '\n' || c == ';'

def readValue (text : List Char) : Except Stop (Reading Value) :=
  let token := text.takeWhile fun c => !endsValue c
  if token.isEmpty then .error ⟨text, .value⟩
  else .ok (Value.ofToken token, text.dropWhile fun c => !endsValue c)

def readNextValue (text : List Char) : Except Stop (Reading Value) := do
  let ((), rest) ← readMark ',' text
  readValue rest

/-- Values between commas, perhaps none. A comma without a value after it is left unread. -/
def readValues (text : List Char) : Reading (List Value) :=
  let text := Text.skipInlineBlanks text
  match readValue text with
  | .error _ => ([], text)
  | .ok (v, rest) =>
    let (more, rest) := repeatedly readNextValue rest
    (v :: more, rest)

/-! ### Pairs, sections and documents -/

end Document

abbrev DocumentSection := Dictionary (List Document.Value)

abbrev TaskDocument := Dictionary DocumentSection

namespace Document

/-- A key with its values. The blanks at both ends of what follows go with them. -/
def readPair (text : List Char) : Except Stop (Reading (String × List Value)) := do
  let (key, rest) ← readKey text
  let ((), rest) ← readMark ':' rest
  let (values, rest) := readValues rest
  return ((key, values), Text.trim rest)

/-- A title with its pairs, at least one; of two pairs with one key the later counts. -/
def readSection (text : List Char) : Except Stop (Reading (String × DocumentSection)) := do
  let (title, rest) ← readTitle (Text.skipInlineBlanks text)
  let (pairs, rest) ← atLeastOnce readPair rest
  return ((title, Dictionary.ofList pairs), rest)

/-- The document with a section added to what stands under its title. -/
def addSection (d : TaskDocument) (title : String) (content : DocumentSection) : TaskDocument :=
  d.insert title (((d.get? title).getD ∅).union content)

def readSections (text : List Char) : Except Stop (Reading TaskDocument) := do
  let (sections, rest) ← atLeastOnce readSection text
  return (sections.foldl (fun d entry => addSection d entry.1 entry.2) ∅, rest)

end Document
end ExprCalculus
