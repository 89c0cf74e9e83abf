import ExprCalculus.Document.Comment
import ExprCalculus.Document.Reader

/-!
# Whole documents and their layout

A document is read without its comments and to its end. With a layout, only the titles and keys that the
layout lists may occur.
-/

namespace ExprCalculus

/-- The titles that may occur, each with its keys; no keys at all stand for any key. -/
abbrev Layout := List (String × List String)

inductive DocumentFault where
  | malformed (stop : Document.Stop)
  | unread (rest : List Char)
  | unknownSection (title : String)
  | unknownKey (key title : String)
  deriving DecidableEq

namespace DocumentFault

def message : DocumentFault → String
  | malformed stop => "Parsing error: " ++ stop.message
  | unread rest => "Failed to parse entire document. Remaining: '" ++ String.ofList rest ++ "'"
  | unknownSection title => "Unknown section '" ++ title ++ "'"
  | unknownKey key title => "Unknown key '" ++ key ++ "' in section '" ++ title ++ "'"

end DocumentFault

namespace Document

def requireKeys (layout : Layout) (title : String) (content : DocumentSection) :
    Except DocumentFault Unit :=
  match layout.lookup title with
  | none => .error (.unknownSection title)
  | some keys =>
    if keys.isEmpty then .ok ()
    else
      match content.names.find? fun key => !keys.contains key with
      | some key => .error (.unknownKey key title)
      | none => .ok ()

def requireLayout (layout : Layout) (d : TaskDocument) : Except DocumentFault Unit :=
  d.toList.forM fun (title, content) => requireKeys layout title content

/-- Reads a whole text as a document. A text of blanks and comments is the empty document. -/
def ofText (layout : Option Layout) (text : String) :
    Except DocumentFault TaskDocument := do
  let content := withoutComments text.toList
  if content.all Text.isBlank then return ∅
  let (d, rest) ← (readSections content).mapError .malformed
  if !rest.all Text.isBlank then throw (.unread rest)
  if let some layout := layout then requireLayout layout d
  return d

end Document
end ExprCalculus
