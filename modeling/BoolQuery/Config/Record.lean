import BoolQuery.Dialect.Basic
import BoolQuery.Toml.Magnitude

/-!
# Dialects from Configuration Values

A configuration states only what differs from the standard dialect. A dialect, a pair of
brackets and a set of keywords are records; a record is given by a table, in which names that
mean nothing are passed over, or by an array with its fields in order. Missing fields take
their standard values, except that a pair needs both sides. What is passed over in a table is
still looked at, and must hold no number without a machine form; items of an array behind the
last field are not looked at.

A date-time is read like a table none of whose names means anything.

## Main definitions

* `Toml.Value.fields?`: a value as a record.
* `BracketPair.ofValue?`, `Keywords.ofValue?`, `Dialect.ofValue?`: the three records.
-/

namespace BoolQuery

/-- How an array with more items than the record has fields is taken. -/
inductive Surplus where
  /-- The items at the end are passed over. -/
  | ignored
  /-- Such an array is no record. -/
  | refused
deriving DecidableEq, Repr

namespace Toml.Value

/-- The character of a string that has just one. -/
def char? : Value → Option Char
  | .string [c] => some c
  | _ => none

/-- The text of a string. -/
def text? : Value → Option Text
  | .string t => some t
  | _ => none

/-- The fields of a record with the given names, when it is given by a value. -/
def fields? (surplus : Surplus) (names : List Text) : Value → Option Members
  | .table _ members =>
    if members.all fun m => names.contains m.1 || m.2.fits then some members else none
  | .array _ items =>
    if surplus = .refused && names.length < items.length then none else some (names.zip items)
  | .dateTime _ => some []
  | _ => none

end Toml.Value

/-- The value of a field that may be missing. -/
def fieldOr {α : Type} (standard : α) (read : Toml.Value → Option α) :
    Option Toml.Value → Option α
  | none => some standard
  | some v => read v

/-- The names of the fields of a pair of brackets. -/
def BracketPair.fieldNames : List Text :=
  ["open".toList, "close".toList]

/-- A pair of brackets. -/
def BracketPair.ofValue? (surplus : Surplus) (v : Toml.Value) : Option BracketPair := do
  let fields ← v.fields? surplus fieldNames
  let opening ← (← fields.lookup "open".toList).char?
  let closing ← (← fields.lookup "close".toList).char?
  pure { opening, closing }

/-- The names of the fields of a set of keywords. -/
def Keywords.fieldNames : List Text :=
  ["and".toList, "or".toList, "not".toList]

/-- A set of keywords. -/
def Keywords.ofValue? (surplus : Surplus) (v : Toml.Value) : Option Keywords := do
  let fields ← v.fields? surplus fieldNames
  let standard := Dialect.standard.keywords
  pure {
    and := ← fieldOr standard.and Toml.Value.text? (fields.lookup "and".toList)
    or := ← fieldOr standard.or Toml.Value.text? (fields.lookup "or".toList)
    not := ← fieldOr standard.not Toml.Value.text? (fields.lookup "not".toList) }

/-- The names of the fields of a dialect. -/
def Dialect.fieldNames : List Text :=
  ["field_delimiter".toList, "quote".toList, "group".toList, "field_operator".toList,
    "modifier".toList, "keywords".toList]

/-- A dialect, usable or not. -/
def Dialect.ofValue? (surplus : Surplus) (v : Toml.Value) : Option Dialect := do
  let fields ← v.fields? surplus fieldNames
  let pair := BracketPair.ofValue? surplus
  pure {
    fieldDelimiter :=
      ← fieldOr standard.fieldDelimiter Toml.Value.char? (fields.lookup "field_delimiter".toList)
    quote := ← fieldOr standard.quote Toml.Value.char? (fields.lookup "quote".toList)
    group := ← fieldOr standard.group pair (fields.lookup "group".toList)
    fieldOperator := ← fieldOr standard.fieldOperator pair (fields.lookup "field_operator".toList)
    modifier := ← fieldOr standard.modifier pair (fields.lookup "modifier".toList)
    keywords := ← fieldOr standard.keywords (Keywords.ofValue? surplus)
      (fields.lookup "keywords".toList) }

end BoolQuery
