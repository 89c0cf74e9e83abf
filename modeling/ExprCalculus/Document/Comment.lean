import ExprCalculus.Text.Blank

/-!
# Comments in task documents

Whole lines only are comments: those whose first character that is not a blank opens one. They are dropped
before a document is read, and blank lines with them.
-/

namespace ExprCalculus.Document

/-- The lines of a text. A line feed ends a line, and so does a carriage return in front of it; the last line
may lack its end. -/
def lines : List Char → List (List Char)
  | [] => []
  | '\n' :: rest => [] :: lines rest
  | '\r' :: '\n' :: rest => [] :: lines rest
  | c :: rest =>
    match lines rest with
    | [] => [[c]]
    | line :: others => (c :: line) :: others

/-- Whether a line without the blanks around it opens a comment. -/
def opensComment : List Char → Bool
  | '/' :: '/' :: _ => true
  | '#' :: _ | '%' :: _ | ';' :: _ => true
  | _ => false

def isContent (line : List Char) : Bool :=
  let trimmed := Text.trim line
  !trimmed.isEmpty && !opensComment trimmed

/-- The text without blank lines and comments, and without an end of the last line. -/
def withoutComments (text : List Char) : List Char :=
  ['\n'].intercalate ((lines text).filter isContent)

end ExprCalculus.Document
