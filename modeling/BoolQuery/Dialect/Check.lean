import BoolQuery.Dialect.Basic
import BoolQuery.Text.Quoted

/-!
# Usable Dialects

A dialect can be used only if each character has one meaning and keywords cannot be confused
with anything else. The check goes through the eight special characters in the order of their
roles, then through the three keywords, and stops at the first fault.

## Main definitions

* `DialectError`: what makes a dialect unusable, and `DialectError.message`, its wording.
* `Dialect.check`: the check.
-/

namespace BoolQuery

/-- What makes a dialect unusable. -/
inductive DialectError where
  /-- A special character is white space. -/
  | blankCharacter (c : Char)
  /-- A special character has another role already. -/
  | repeatedCharacter (c : Char)
  /-- An operator has no keyword. -/
  | emptyKeyword (op : Operator)
  /-- A keyword has white space or a special character in it. -/
  | unusableKeyword (keyword : Text)
  /-- A keyword belongs to another operator already. -/
  | repeatedKeyword (keyword : Text)
deriving DecidableEq, Repr

/-- The wording of a fault. -/
def DialectError.message : DialectError → Text
  | .blankCharacter c => "syntax character ".toList ++ Text.quotedChar c ++ " is whitespace".toList
  | .repeatedCharacter c =>
    "syntax character ".toList ++ Text.quotedChar c ++ " is used more than once".toList
  | .emptyKeyword op => "keyword for ".toList ++ op.name ++ " is empty".toList
  | .unusableKeyword keyword =>
    "keyword ".toList ++ Text.quoted keyword
      ++ " contains whitespace or a syntax character".toList
  | .repeatedKeyword keyword =>
    "keyword ".toList ++ Text.quoted keyword ++ " is used for more than one operator".toList

/-- Checks special characters in turn: none is white space, and none is among those `seen`
before it. -/
def checkCharacters (seen : List Char) : List Char → Except DialectError Unit
  | [] => .ok ()
  | c :: rest =>
    if Text.isBlank c then .error (.blankCharacter c)
    else if c ∈ seen then .error (.repeatedCharacter c)
    else checkCharacters (c :: seen) rest

namespace Dialect

/-- Checks the keywords of the given operators in turn: none is empty, none holds white space
or a special character, and none is among those `seen` before it. -/
def checkKeywords (d : Dialect) (seen : List Text) : List Operator → Except DialectError Unit
  | [] => .ok ()
  | op :: rest =>
    let keyword := d.keyword op
    if keyword = [] then .error (.emptyKeyword op)
    else if keyword.any fun c => Text.isBlank c || d.specials.contains c then
      .error (.unusableKeyword keyword)
    else if keyword ∈ seen then .error (.repeatedKeyword keyword)
    else d.checkKeywords (keyword :: seen) rest

/-- Checks that the dialect is usable, and gives its first fault if it is not. -/
def check (d : Dialect) : Except DialectError Unit := do
  checkCharacters [] d.specials
  d.checkKeywords [] Operator.all

end Dialect

end BoolQuery
