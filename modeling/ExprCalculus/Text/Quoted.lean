import ExprCalculus.Text.GraphemeExtend
import ExprCalculus.Text.Ignorable
import ExprCalculus.Text.Unprintable

/-!
# Quoted text

A quoted text stands between double quotes and shows each character so that it can be told apart:
six characters have a short escape, those that cannot be seen by themselves are written by their
number, and all others stand for themselves.
-/

namespace ExprCalculus.Text

def hexDigits (n : Nat) : List Char := Nat.toDigits 16 n

/-- The halfwidth sound marks of katakana. They extend a grapheme by their property, but take up a place of
their own. -/
def isHalfwidthSoundMark (c : Char) : Bool := c == '\uFF9E' || c == '\uFF9F'

/-- Whether a character does not show by itself: it attaches to the one before it, is left out by displays, or
leaves no mark. -/
def isHidden (c : Char) : Bool :=
  (extendsGrapheme c && !isHalfwidthSoundMark c) || isIgnorable c || isUnprintable c

def quotedChar (c : Char) : List Char :=
  match c with
  | '\x00' => ['\\', '0']
  | '\t' => ['\\', 't']
  | '\r' => ['\\', 'r']
  | '\n' => ['\\', 'n']
  | '\"' => ['\\', '\"']
  | '\\' => ['\\', '\\']
  | c =>
    if isHidden c then
      ['\\', 'u', '\x7b'] ++ hexDigits c.toNat ++ ['\x7d']
    else [c]

/-- The text between double quotes, with escapes. -/
def quoted (text : List Char) : String :=
  String.ofList (['\"'] ++ text.flatMap quotedChar ++ ['\"'])

end ExprCalculus.Text
