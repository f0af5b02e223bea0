import BoolQuery.Query.Match
import BoolQuery.Text.Utf8

/-!
# Filtering Lines

A filter goes through the lines of some bytes and selects those that match a query, or those
that do not. A line ends in a line feed, before which there may be a carriage return; the
last line may lack the line feed. Lines need not be texts: a line is matched as the text that
its bytes spell with ill-formed places replaced, and it is written byte for byte.

## Main definitions

* `Bytes.lines`: the lines of some bytes.
* `Filter`: what to select and whether to write or to count.
* `Filter.scan`: the result of filtering some bytes.
-/

namespace BoolQuery

namespace Bytes

/-- The line feed. -/
def lineFeed : UInt8 := 10

/-- The carriage return. -/
def carriageReturn : UInt8 := 13

/-- A line without a carriage return at its end. -/
def dropReturn (line : Bytes) : Bytes :=
  if line.getLast? = some carriageReturn then line.dropLast else line

/-- The pieces of some bytes between line feeds; behind the last one only a piece that is not
empty. -/
def pieces (bytes : Bytes) : List Bytes :=
  let all := bytes.splitOn lineFeed
  if all.getLast? = some [] then all.dropLast else all

/-- The lines of some bytes, without what ends them. -/
def lines (bytes : Bytes) : List Bytes :=
  (pieces bytes).map dropReturn

end Bytes

/-- What to select and what to do with it. -/
structure Filter where
  /-- The query that decides. -/
  query : Query
  /-- True to select the lines that do not match. -/
  invert : Bool := false
  /-- True to count the lines only. -/
  countOnly : Bool := false
deriving DecidableEq, Repr

namespace Filter

/-- The result of filtering some bytes. -/
structure Selection where
  /-- The number of selected lines. -/
  count : Nat
  /-- What is written: each selected line with a line feed. -/
  output : Bytes
deriving DecidableEq, Repr

/-- True when a line is selected. -/
def selects (f : Filter) (line : Bytes) : Bool :=
  f.query.accepts (Utf8.decodeLossy line) != f.invert

/-- Filters the lines of some bytes. -/
def scan (f : Filter) (bytes : Bytes) : Selection :=
  let selected := bytes.lines.filter f.selects
  { count := selected.length
    output :=
      if f.countOnly then [] else selected.flatMap fun line => line ++ [Bytes.lineFeed] }

end Filter

end BoolQuery
