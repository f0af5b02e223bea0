import BoolQuery.Text.Basic
import BoolQuery.Text.Combining
import BoolQuery.Text.Unprintable

/-!
# Quoted Display

Messages and displays show texts and characters between quotation marks, on one line, with
everything that would not show as itself written as an escape: the mark itself and the
backslash after a backslash, five controls by a letter, and characters that combine with
their neighbour or have no visible form by number, as in `\u{301}`.

## Main definitions

* `Text.escape`: the written form of one character between two given marks.
* `Text.quoted`: a text between double marks.
* `Text.quotedChar`: a character between single marks.
-/

namespace BoolQuery.Text

/-- A character by its code point in lower-case hexadecimal, without leading zeros. -/
def escapeByNumber (c : Char) : Text :=
  '\\' :: 'u' :: '{' :: (Nat.toDigits 16 c.toNat ++ ['}'])

/-- The written form of a character between two quotation marks `mark`. -/
def escape (mark c : Char) : Text :=
  if c = '\x00' then ['\\', '0']
  else if c = '\t' then ['\\', 't']
  else if c = '\r' then ['\\', 'r']
  else if c = '\n' then ['\\', 'n']
  else if c = '\\' ∨ c = mark then ['\\', c]
  else if isCombining c || isUnprintable c then escapeByNumber c
  else [c]

/-- A text between double quotation marks. -/
def quoted (t : Text) : Text :=
  '"' :: (t.flatMap (escape '"') ++ ['"'])

/-- A character between single quotation marks. -/
def quotedChar (c : Char) : Text :=
  '\'' :: (escape '\'' c ++ ['\''])

end BoolQuery.Text
