import BoolQuery.Text.Quoted

/-!
# Terms

A term is an operand of a query: the text to look for, and for a field term the name of the
field with an optional operator and an optional modifier. The library keeps these three for
the caller; on their own they do not change what the term matches.

## Main definitions

* `Term`: a term.
* `Term.display`: a term on one line, its texts quoted.
-/

namespace BoolQuery

/-- An operand of a query. -/
structure Term where
  /-- The text to look for, without its quotes. -/
  value : Text
  /-- The field, from `field:value`. -/
  field : Option Text := none
  /-- The operator of the field, from `field[operator]:value`. -/
  operator : Option Text := none
  /-- The modifier of the field, from `field{modifier}:value`. -/
  modifier : Option Text := none
deriving DecidableEq, Repr

namespace Term

/-- A labelled part of a display; nothing for an absent part. -/
def displayPart (label : Text) : Option Text → Text
  | none => []
  | some t => ' ' :: (label ++ '=' :: Text.quoted t)

/-- A term on one line: `Term("guide" field="title" operator="exact")`. -/
def display (t : Term) : Text :=
  "Term(".toList ++ Text.quoted t.value ++ displayPart "field".toList t.field
    ++ displayPart "operator".toList t.operator ++ displayPart "modifier".toList t.modifier
    ++ ")".toList

end Term

end BoolQuery
