import BoolQuery.Balance
import BoolQuery.Dialect.Check
import BoolQuery.Postfix
import BoolQuery.Query.Build
import BoolQuery.Token.Scanner

/-!
# Reading Queries

The three things a dialect is used for: checking the brackets of a query, finding its tokens,
and reading it into a tree. Errors carry the query, so that they can be shown in place.

## Main definitions

* `Dialect.validate`: the bracket check.
* `Dialect.tokenize`: the tokens, brackets unchecked.
* `Dialect.parse`: the tree. Brackets are checked first, then tokens are found, brought into
  postfix order and folded; the first step that fails gives the error.
* `Parser`: a dialect that has passed the check, and the three operations on queries in it.
-/

namespace BoolQuery

/-- The result `r`, its error taken as one about the query `q`. -/
def inQuery {α : Type} (q : Text) (r : Except ParseError α) : Except ParseError α :=
  r.mapError (·.inQuery q)

namespace Dialect

/-- Checks that the brackets of a query are balanced. -/
def validate (d : Dialect) (q : Text) : Except ParseError Unit :=
  inQuery q (checkBalance d q)

/-- The tokens of a query. Whether its brackets are balanced is not checked. -/
def tokenize (d : Dialect) (q : Text) : Except ParseError (List Token) :=
  inQuery q (scan d q)

/-- Reads a query into a tree. -/
def parse (d : Dialect) (q : Text) : Except ParseError Query :=
  inQuery q do
    checkBalance d q
    let tokens ← scan d q
    let postfixed ← toPostfix tokens
    buildTree postfixed

end Dialect

/-- A dialect that is known to be usable. -/
structure Parser where
  /-- The dialect of the queries. -/
  dialect : Dialect
  /-- It has passed the check. -/
  usable : dialect.check = .ok ()

namespace Parser

/-- The parser for a dialect, or the fault that makes the dialect unusable. -/
def ofDialect (d : Dialect) : Except DialectError Parser :=
  match h : d.check with
  | .error reason => .error reason
  | .ok () => .ok ⟨d, h⟩

/-- Checks that the brackets of a query are balanced. -/
def validate (p : Parser) (q : Text) : Except ParseError Unit :=
  p.dialect.validate q

/-- The tokens of a query. Whether its brackets are balanced is not checked. -/
def tokenize (p : Parser) (q : Text) : Except ParseError (List Token) :=
  p.dialect.tokenize q

/-- Reads a query into a tree. -/
def parse (p : Parser) (q : Text) : Except ParseError Query :=
  p.dialect.parse q

end Parser

end BoolQuery
