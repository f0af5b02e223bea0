import BoolQuery.Text.Basic

/-!
# TOML Values

The values that a TOML document can hold. Numbers and date-times are kept as they are
written; whether a number fits some machine type is not a matter of the document.

## Main definitions

* `Toml.Value`: a value.
* `Toml.Origin`: how a table came to be, which decides what may still be added to it.
-/

namespace BoolQuery.Toml

/-- How a table came to be. -/
inductive Origin where
  /-- Written in braces: it is complete. -/
  | inline
  /-- Opened by a header of its own. -/
  | header
  /-- Named in a header only on the way to another table: it may still get its own. -/
  | implied
  /-- Named in a dotted key only on the way to a value. -/
  | dotted
deriving DecidableEq, Repr

/-- A TOML value. -/
inductive Value where
  /-- A string. -/
  | string (t : Text)
  /-- An integer, as written. -/
  | integer (literal : Text)
  /-- A floating-point number, as written. -/
  | float (literal : Text)
  /-- A truth value. -/
  | boolean (b : Bool)
  /-- A date, a time or both, as written. -/
  | dateTime (literal : Text)
  /-- An array. It is growing if it consists of the tables under headers `[[name]]`. -/
  | array (growing : Bool) (items : List Value)
  /-- A table, its members in the order in which they first appear. -/
  | table (origin : Origin) (members : List (Text × Value))
deriving Repr, Inhabited

/-- The members of a table. -/
abbrev Members : Type := List (Text × Value)

end BoolQuery.Toml
