import BoolQuery.Text.Basic

/-!
# Writing TOML Strings

TOML has four written forms of strings: basic ones with escapes and literal ones without,
each on one line or on several. A text is written in the plainest form that can hold it:

1. basic, if nothing in it needs an escape;
2. literal, if that needs no escapes either;
3. basic on several lines, if that needs no escapes;
4. literal on several lines, if the text can stand in it;
5. otherwise basic with escapes, on several lines exactly if the text has several.

## Main definitions

* `Toml.StringForm`: the four forms; `Toml.StringForm.of`, the one for a text.
* `Toml.writeString`: the written form of a text.
-/

namespace BoolQuery.Toml

/-- The written forms of strings. -/
inductive StringForm where
  /-- Between single `"`, with escapes. -/
  | basic
  /-- Between single `'`, as it is. -/
  | literal
  /-- Between triple `"`, with escapes. -/
  | multilineBasic
  /-- Between triple `'`, as it is. -/
  | multilineLiteral
deriving DecidableEq, Repr

/-- True for the characters that can stand in a document only as escapes: the ASCII controls
but the tab and the line feed. -/
def isControl (c : Char) : Bool :=
  (c.toNat < 0x20 && c != '\t' && c != '\n') || c == '\x7f'

/-- The length of the longest run of `c`, where a run of `current` has just been seen and the
longest one so far is `longest`. -/
def longestRunFrom (c : Char) (current longest : Nat) : Text → Nat
  | [] => max current longest
  | x :: rest =>
    if x = c then longestRunFrom c (current + 1) longest rest
    else longestRunFrom c 0 (max current longest) rest

/-- The length of the longest run of `c` in a text. -/
def longestRun (c : Char) (t : Text) : Nat :=
  longestRunFrom c 0 0 t

/-- The form in which a text is written. -/
def StringForm.of (t : Text) : StringForm :=
  let hasControl := t.any isControl
  let hasBackslash := decide ('\\' ∈ t)
  let hasNewline := decide ('\n' ∈ t)
  if !hasControl && !hasBackslash && longestRun '"' t = 0 && !hasNewline then .basic
  else if !hasControl && longestRun '\'' t = 0 && !hasNewline then .literal
  else if !hasControl && !hasBackslash && longestRun '"' t ≤ 2 then .multilineBasic
  else if !hasControl && longestRun '\'' t ≤ 2 then .multilineLiteral
  else if hasNewline then .multilineBasic
  else .basic

/-- The digits of a number below 256 in upper-case hexadecimal. -/
def hexPair (n : Nat) : Text :=
  [(Nat.digitChar (n / 16)).toUpper, (Nat.digitChar (n % 16)).toUpper]

/-- The written form of a character other than `"` in a basic string. -/
def escapeBasic (c : Char) : Text :=
  if c = '\x08' then ['\\', 'b']
  else if c = '\t' then ['\\', 't']
  else if c = '\n' then ['\\', 'n']
  else if c = '\x0c' then ['\\', 'f']
  else if c = '\r' then ['\\', 'r']
  else if c = '\\' then ['\\', '\\']
  else if isControl c then '\\' :: 'u' :: '0' :: '0' :: hexPair c.toNat
  else [c]

/-- The inside of a basic string on one line. -/
def basicBody (t : Text) : Text :=
  t.flatMap fun c => if c = '"' then ['\\', '"'] else escapeBasic c

/-- The inside of a basic string on several lines, after `run` bare `"`. Line feeds stand for
themselves, and a `"` is escaped only where it would be the third bare one in a row. -/
def multilineBody (run : Nat) : Text → Text
  | [] => []
  | c :: rest =>
    if c = '"' then
      if run < 2 then '"' :: multilineBody (run + 1) rest
      else '\\' :: '"' :: multilineBody 0 rest
    else if c = '\n' then '\n' :: multilineBody 0 rest
    else escapeBasic c ++ multilineBody 0 rest

/-- A line feed behind the opening marks of a text of several lines, which readers drop. -/
def openingBreak (t : Text) : Text :=
  if '\n' ∈ t then ['\n'] else []

/-- A text in a given form. -/
def StringForm.write (t : Text) : StringForm → Text
  | .basic => '"' :: (basicBody t ++ ['"'])
  | .literal => '\'' :: (t ++ ['\''])
  | .multilineBasic =>
    "\"\"\"".toList ++ openingBreak t ++ multilineBody 0 t ++ "\"\"\"".toList
  | .multilineLiteral => "'''".toList ++ openingBreak t ++ t ++ "'''".toList

/-- The written form of a text. -/
def writeString (t : Text) : Text :=
  (StringForm.of t).write t

end BoolQuery.Toml
