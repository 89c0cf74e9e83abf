import ExprCalculus.Text.Ranges

/-!
# Blanks

Blanks are the 25 characters with the Unicode property White_Space. Task documents also know inline
blanks (space and tab), which do not end a line.
-/

namespace ExprCalculus.Text

def blankRanges : Ranges :=
  [(0x9, 0xD), (0x20, 0x20), (0x85, 0x85), (0xA0, 0xA0), (0x1680, 0x1680), (0x2000, 0x200A),
    (0x2028, 0x2029), (0x202F, 0x202F), (0x205F, 0x205F), (0x3000, 0x3000)]

/-- A blank separates tokens of any kind. -/
def isBlank (c : Char) : Bool := inRanges blankRanges c

def isInlineBlank (c : Char) : Bool := c == ' ' || c == '\t'

/-- The text from its first character that is not a blank. -/
def skipBlanks (text : List Char) : List Char := text.dropWhile isBlank

def skipInlineBlanks (text : List Char) : List Char := text.dropWhile isInlineBlank

def dropTrailingBlanks (text : List Char) : List Char := (text.reverse.dropWhile isBlank).reverse

def trim (text : List Char) : List Char := dropTrailingBlanks (skipBlanks text)

theorem length_skipBlanks_le (text : List Char) : (skipBlanks text).length ≤ text.length :=
  (List.dropWhile_sublist _).length_le

end ExprCalculus.Text
