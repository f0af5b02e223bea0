import BoolQuery.Proofs.Token.Field
import BoolQuery.Proofs.Token.Segment

/-!
# Terms That Can Be Written

The terms that come from reading a query are not arbitrary: values have no quotes, and a field
specification has only passed the scanner because no keyword stands in it as a word. Such terms
are **writable**: wherever they are written outside quotes, no mark begins in their
specification.

## Main definitions

* `FieldSpec.Writable`, `Term.Writable`: what is true of specifications and terms that come from
  reading.

## Main results

* `FieldSpec.writable_of_segment`, `Term.writable_termOf`: the specifications and terms of a
  query are writable.
-/

namespace BoolQuery

open Dialect

variable {d : Dialect} {before seg after : Text} {f : FieldSpec} {t : Term}

/-! ### Specifications -/

/-- The specification comes from reading: its written form has no white space around it and no
special character that does not belong to it, and with the field delimiter behind it no mark
begins in it anywhere. -/
structure FieldSpec.Writable (d : Dialect) (f : FieldSpec) : Prop where
  /-- The parts are not empty and have no brackets. -/
  wellFormed : f.WellFormed d
  /-- There is no white space around it. -/
  trim : (f.text d).trim = f.text d
  /-- There is no quote in it. -/
  quote_notMem : d.quote ∉ f.text d
  /-- There is no delimiter in it. -/
  fieldDelimiter_notMem : d.fieldDelimiter ∉ f.text d
  /-- There is no grouping character in it. -/
  isGrouping : ∀ c ∈ f.text d, d.isGrouping c = false
  /-- No mark begins in it. -/
  plain : ∀ before after, d.Outside before →
    d.Plain before (f.text d ++ [d.fieldDelimiter]) after

/-- **The specifications in a query are writable.** -/
theorem FieldSpec.writable_of_segment (hd : d.Sound) (hseg : d.Segment before seg after)
    {spec value : Text} (hsplit : d.splitField? seg = some (spec, value))
    (hf : FieldSpec.ofText? d spec.trim = some f) : f.Writable d := by
  obtain ⟨rfl, hdelim, hquote⟩ := splitField?_eq_some_iff.mp hsplit
  obtain ⟨htext, hwf⟩ := (FieldSpec.ofText?_eq_some_iff hd).mp hf
  obtain ⟨lead, trail, hlead, -, hspec⟩ := Text.exists_eq_append_trim spec
  rw [htext] at hspec
  have hmem : ∀ c ∈ f.text d, c ∈ spec := fun c hc => by rw [hspec]; simp [hc]
  have hquote' : d.quote ∉ f.text d := fun hc => hquote (hmem _ hc)
  -- the segment, from the first character of the specification
  have hsegment : spec ++ d.fieldDelimiter :: value
      = lead ++ (f.text d ++ (trail ++ d.fieldDelimiter :: value)) := by
    rw [hspec]
    simp
  rw [hsegment] at hseg
  have hplace : d.Outside (before ++ lead) :=
    (outside_append_of_notMem (hd.quote_notMem_of_blank hlead)).mpr (hseg.outside hd)
  have hplain := (plain_append_iff.mp (plain_append_iff.mp hseg.plain).2).1
  exact ⟨hwf, by rw [← htext, Text.trim_trim], hquote', fun hc => hdelim (hmem _ hc),
    hplain.isGrouping hd hplace hquote',
    fun _ _ hout => hseg.plain_fieldDelimiter hd hlead hquote' hout⟩

/-! ### Terms -/

namespace Term

/-- The field specification of the term, if it has a field. -/
def spec? (t : Term) : Option FieldSpec :=
  t.field.map fun name => { name, operator := t.operator, modifier := t.modifier }

/-- The term comes from reading: its value has no quotes, an operator or a modifier is only
there with a field, and the field specification comes from reading, too. -/
structure Writable (d : Dialect) (t : Term) : Prop where
  /-- There is no quote in the value. -/
  quote_notMem : d.quote ∉ t.value
  /-- Without a field there is neither an operator nor a modifier. -/
  bare : t.field = none → t.operator = none ∧ t.modifier = none
  /-- The specification comes from reading. -/
  spec : ∀ f ∈ t.spec?, f.Writable d

/-- The specification is written with the delimiter behind it. -/
theorem canonicalField_eq (d : Dialect) (t : Term) :
    t.canonicalField d = match t.spec? with
      | none => []
      | some f => f.text d ++ [d.fieldDelimiter] := by
  rw [canonicalField, spec?]
  cases t.field with
  | none => rfl
  | some name => simp [FieldSpec.text]

/-- A segment gives the term when it gives its value and its specification. -/
theorem termOf_eq (hvalue : d.valueOf seg = t.value) (hfield : d.fieldOf? seg = t.spec?)
    (hbare : t.field = none → t.operator = none ∧ t.modifier = none) : d.termOf seg = t := by
  obtain ⟨value, field, operator, modifier⟩ := t
  cases field with
  | none =>
      obtain ⟨rfl, rfl⟩ := hbare rfl
      rw [termOf, hvalue, hfield]
      rfl
  | some name =>
      rw [termOf, hvalue, hfield]
      rfl

/-- **The terms of a query are writable.** -/
theorem writable_termOf (hd : d.Sound) {q : Text} (h : d.SegmentOf q before seg) :
    (d.termOf seg).Writable d := by
  obtain ⟨after, -, hseg⟩ := h
  constructor
  · simp [termOf, valueOf, unquote]
  · intro hfield
    have hnone : d.fieldOf? seg = none := Option.map_eq_none_iff.mp hfield
    simp [termOf, hnone]
  · intro f hf
    have hspec : (d.termOf seg).spec? = d.fieldOf? seg := by
      rw [spec?, termOf]
      cases d.fieldOf? seg <;> rfl
    rw [hspec] at hf
    obtain ⟨⟨spec, value⟩, hsplit, hf⟩ := Option.bind_eq_some_iff.mp hf
    exact FieldSpec.writable_of_segment hd hseg hsplit hf

end Term

end BoolQuery
