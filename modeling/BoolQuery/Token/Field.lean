import BoolQuery.Dialect.Basic

/-!
# Field Specifications

Before a field delimiter stands the specification of a field: a name, then optionally a
modifier in its brackets, then optionally an operator in its brackets, as in
`title{lower}[exact]`. No part is empty, and no part holds one of the four bracket characters.

## Main definitions

* `FieldSpec`: a field specification.
* `FieldSpec.ofText?`: reads one, from the left.
-/

namespace BoolQuery

/-- The specification of a field. -/
structure FieldSpec where
  /-- The name of the field. -/
  name : Text
  /-- The operator, from `name[operator]`. -/
  operator : Option Text := none
  /-- The modifier, from `name{modifier}`. -/
  modifier : Option Text := none
deriving DecidableEq, Repr

namespace FieldSpec

/-- Reads a part: the non-empty text up to the first bracket character or the end, and what
follows it. -/
def part? (d : Dialect) (t : Text) : Option (Text × Text) :=
  match t.takeWhile fun c => !d.isFieldBracket c with
  | [] => none
  | part => some (part, t.dropWhile fun c => !d.isFieldBracket c)

/-- Reads a part between the brackets of the pair `p`, when `t` begins with the opening one,
and what follows the closing one; otherwise there is no such part and nothing is read. -/
def section? (d : Dialect) (p : BracketPair) (t : Text) : Option (Option Text × Text) :=
  match t with
  | [] => some (none, [])
  | c :: rest =>
    if c = p.opening then
      match part? d rest with
      | some (part, e :: after) => if e = p.closing then some (some part, after) else none
      | _ => none
    else some (none, c :: rest)

/-- Reads a field specification that makes up the whole of `t`. -/
def ofText? (d : Dialect) (t : Text) : Option FieldSpec :=
  match part? d t with
  | none => none
  | some (name, rest) =>
    match section? d d.modifier rest with
    | none => none
    | some (modifier, rest) =>
      match section? d d.fieldOperator rest with
      | some (operator, []) => some { name, operator, modifier }
      | _ => none

end FieldSpec

end BoolQuery
