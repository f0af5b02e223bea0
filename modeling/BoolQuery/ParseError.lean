import BoolQuery.Text.Basic

/-!
# Errors in a Query

Reading a query stops at the first fault. The error says what is wrong and where, as a byte
offset into the query, and can carry the query itself, so that a report shows the place.

## Main definitions

* `ParseFault`: what can be wrong, with `ParseFault.message` and `ParseFault.hint`.
* `ParseError`: a fault at a place.
* `ParseError.inQuery`: the error with the query it is about.
* `ParseError.report`: the error for a reader, with a caret under the place.
-/

namespace BoolQuery

/-- What can be wrong with a query. -/
inductive ParseFault where
  /-- A closing bracket has no opening bracket of its class before it. -/
  | missingOpen
  /-- An opening bracket is never closed. -/
  | missingClose
  /-- A quoted phrase runs to the end of the query. -/
  | unclosedQuote
  /-- A field specification has none of the known shapes, or no value after it. -/
  | malformedField
  /-- An operator lacks an operand, or a group is empty. -/
  | missingOperand
  /-- Two expressions stand side by side. -/
  | missingOperator
  /-- The tree would have too many levels. -/
  | tooDeep
deriving DecidableEq, Repr

/-- The wording of a fault. -/
def ParseFault.message : ParseFault → Text
  | .missingOpen => "open parenthesis is not found".toList
  | .missingClose => "close parenthesis is not found".toList
  | .unclosedQuote => "close quote is not found".toList
  | .malformedField => "malformed field expression".toList
  | .missingOperand => "operand is not found".toList
  | .missingOperator => "operator is not found".toList
  | .tooDeep => "query is nested too deeply".toList

/-- Advice on how to mend the query. -/
def ParseFault.hint : ParseFault → Text
  | .missingOpen => "Remove the stray closing bracket or add its opening counterpart".toList
  | .missingClose => "Add a closing bracket to match the opening one".toList
  | .unclosedQuote => "Add a closing quote to complete the phrase".toList
  | .malformedField =>
    "Field terms look like field:value, field[operator]:value or ".toList
      ++ "field\x7bmodifier\x7d[operator]:value".toList
  | .missingOperand => "AND and OR need an expression on both sides, NOT needs one after it".toList
  | .missingOperator => "Join adjacent expressions with AND or OR".toList
  | .tooDeep =>
    "Every operator adds a level; split very long chains into separate queries".toList

/-- A fault at a place. -/
structure ParseError where
  /-- What is wrong. -/
  fault : ParseFault
  /-- The byte offset of the place in the query. -/
  position : Nat
  /-- The character at the place, when it is known. -/
  character : Option Char := none
  /-- The query, empty as long as it is not known. -/
  query : Text := []
deriving DecidableEq, Repr

namespace ParseError

/-- The error as one about the query `q`. A character that is not known yet is looked up at
the place. -/
def inQuery (e : ParseError) (q : Text) : ParseError :=
  { e with query := q, character := e.character <|> q.charAt? e.position }

/-- The number of characters of the query before the place; the offset itself when it is not
the offset of a character of the query or of its end. -/
def column (e : ParseError) : Nat :=
  (e.query.column? e.position).getD e.position

/-- The error for a reader: message, query, a caret under the place, advice. -/
def report (e : ParseError) : Text :=
  "query syntax error: ".toList ++ e.fault.message ++ "\n  ".toList
    ++ e.query ++ "\n  ".toList
    ++ List.replicate e.column ' ' ++ "^\nhint: ".toList
    ++ e.fault.hint

end ParseError

end BoolQuery
