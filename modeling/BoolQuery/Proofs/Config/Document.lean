import BoolQuery.Config.Basic
import BoolQuery.Proofs.Toml.Sections

/-!
# Documents That Describe Dialects

The document written for a dialect describes that dialect. No character and no keyword is
excepted, and the dialect need not be usable: an unusable one comes back as it was too, and is
then refused for the same reason as before.

The document passes through three forms: sections, statements, and a table in which each record of
the dialect is a table of its own. The names in them are fixed and need no quotation marks. Only
the values depend on the dialect, and none of the three forms looks into them.

## Main definitions

* `BracketPair.toValue`, `Keywords.toValue`, `Dialect.toMembers`: the tables that describe a
  dialect.

## Main results

* `Dialect.read?_document`: the document stands for those tables.
* `Dialect.ofDocument_document`: what reading the document gives.
-/

namespace BoolQuery

/-- The table that describes a pair of brackets. -/
def BracketPair.toValue (p : BracketPair) : Toml.Value :=
  .table .header [("open".toList, .string [p.opening]), ("close".toList, .string [p.closing])]

/-- The table that describes the keywords. -/
def Keywords.toValue (k : Keywords) : Toml.Value :=
  .table .header
    [("and".toList, .string k.and), ("or".toList, .string k.or), ("not".toList, .string k.not)]

namespace Dialect

/-- The table `syntax` that describes a dialect. -/
def toValue (d : Dialect) : Toml.Value :=
  .table .header
    [("field_delimiter".toList, .string [d.fieldDelimiter]), ("quote".toList, .string [d.quote]),
      ("group".toList, d.group.toValue), ("field_operator".toList, d.fieldOperator.toValue),
      ("modifier".toList, d.modifier.toValue), ("keywords".toList, d.keywords.toValue)]

/-- The members of a document that describes a dialect. -/
def toMembers (d : Dialect) : Toml.Members :=
  [("syntax".toList, d.toValue)]

/-! ### From the dialect to its table -/

/-- No name in the document needs quotation marks. -/
theorem isBare_of_mem_sections (d : Dialect) : ∀ s ∈ d.sections, s.isBare = true := by
  have hall : d.sections.all Toml.Section.isBare = true := rfl
  exact List.all_eq_true.mp hall

/-- The statements of the document build the table: the header of each record opens a new table
in `syntax`, to which the entries below it belong. -/
theorem ofStatements?_sections (d : Dialect) :
    Toml.Members.ofStatements? (d.sections.flatMap Toml.Section.statements) = some d.toMembers :=
  rfl

/-- The document stands for the table. -/
theorem read?_document (d : Dialect) : Toml.read? d.document = some d.toMembers := by
  rw [document, Toml.read?_writeSections d.isBare_of_mem_sections, ofStatements?_sections]

/-! ### From the table to the dialect -/

/-- Every field of a dialect is found in its table. -/
theorem ofValue?_toValue (surplus : Surplus) (d : Dialect) :
    ofValue? surplus d.toValue = some d :=
  rfl

/-- The table is that of the dialect. -/
theorem ofMembers?_toMembers (d : Dialect) : ofMembers? d.toMembers = some d :=
  ofValue?_toValue .ignored d

/-- **The document that describes a dialect is read as that dialect**, whatever its characters and
keywords are; whether it can be used is decided by the check of the dialect and nothing else. -/
theorem ofDocument_document (d : Dialect) (path : Path) :
    (Toml.read? d.document).bind ofMembers? = some d ∧
      ofDocument path d.document =
        match d.check with
        | .ok () => .ok d
        | .error reason => .error (.unusable path reason) := by
  have hread : (Toml.read? d.document).bind ofMembers? = some d := by
    rw [read?_document, Option.bind_some, ofMembers?_toMembers]
  refine ⟨hread, ?_⟩
  rw [ofDocument, hread]
  cases hcheck : d.check with
  | ok _ => simp only [hcheck]
  | error reason => simp only [hcheck]

end Dialect

end BoolQuery
