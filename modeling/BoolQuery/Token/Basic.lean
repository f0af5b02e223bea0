import BoolQuery.Dialect.Basic
import BoolQuery.Term

/-!
# Tokens

A query is read as a row of tokens: terms, operators and grouping parentheses, each with its
place in the query.

## Main definitions

* `Token`: a token, with `TokenKind`, what it is.
* `Token.display`: a token on one line.
-/

namespace BoolQuery

/-- What a token is. -/
inductive TokenKind where
  /-- An operand. -/
  | term (t : Term)
  /-- A keyword. -/
  | operator (op : Operator)
  /-- An opening parenthesis. -/
  | openGroup
  /-- A closing parenthesis. -/
  | closeGroup
deriving DecidableEq, Repr

/-- A token of a query. -/
structure Token where
  /-- What it is. -/
  kind : TokenKind
  /-- The byte offset of its first character. -/
  position : Nat
deriving DecidableEq, Repr

/-- A token on one line, operators by the words `spell` gives them. -/
def TokenKind.display (spell : Operator → Text) : TokenKind → Text
  | .term t => t.display
  | .operator op => "Operator(".toList ++ spell op ++ ")".toList
  | .openGroup => "OpenGroup".toList
  | .closeGroup => "CloseGroup".toList

/-- A token on one line, operators by their names. -/
def Token.display (t : Token) : Text :=
  t.kind.display Operator.name

end BoolQuery
