import BoolQuery.Proofs.Text.Trim
import BoolQuery.Proofs.Token.Mark
import BoolQuery.Token.Scanner

/-!
# Operand Segments

Marks cut a query into segments, and each segment is an operand or blank. This module says
what a segment means, without going through it character by character: where its field
specification ends, what its value is, and which term or which error it gives.

## Main definitions

* `Dialect.splitField?`: a segment cut at its field delimiter.
* `Dialect.valuePart`, `Dialect.valueOf`: the part of a segment that is its value, and the
  value itself, without outer white space and quotes.
* `Dialect.termOf`: the term of a segment.
* `Dialect.fieldFault?`: the place of the delimiter of a segment whose field is at fault.
* `Dialect.readSegment`: the token of a segment, or its first error.

## Main results

* `Dialect.splitField?_eq_some_iff`: the delimiter that counts is the first one, if no quote
  stands before it.
-/

namespace BoolQuery

namespace Dialect

variable {d : Dialect} {seg spec value more : Text}

/-! ### Fields -/

/-- The text before the first field delimiter and the text after it, when there is one and no
quote stands before it. -/
def splitField? (d : Dialect) (seg : Text) : Option (Text × Text) :=
  match seg.dropWhile fun c => c != d.fieldDelimiter && c != d.quote with
  | [] => none
  | c :: value =>
    if c = d.fieldDelimiter then
      some (seg.takeWhile fun c => c != d.fieldDelimiter && c != d.quote, value)
    else none

/-- **A segment is cut at its first delimiter, if no quote stands before it.** -/
theorem splitField?_eq_some_iff :
    d.splitField? seg = some (spec, value) ↔
      seg = spec ++ d.fieldDelimiter :: value ∧ d.fieldDelimiter ∉ spec ∧ d.quote ∉ spec := by
  rw [splitField?]
  constructor
  · intro h
    split at h
    · cases h
    · next c value' hdrop =>
      split at h
      · next hc =>
        simp only [Option.some.injEq, Prod.mk.injEq] at h
        obtain ⟨rfl, rfl⟩ := h
        subst hc
        refine ⟨?_, fun hmem => ?_, fun hmem => ?_⟩
        · rw [← hdrop, List.takeWhile_append_dropWhile]
        · simpa using List.mem_takeWhile_imp hmem
        · simpa using List.mem_takeWhile_imp hmem
      · cases h
  · rintro ⟨rfl, hdelim, hquote⟩
    have hspec : ∀ c ∈ spec, (c != d.fieldDelimiter && c != d.quote) = true := by
      intro c hc
      simp only [Bool.and_eq_true, bne_iff_ne, ne_eq]
      exact ⟨fun h => hdelim (h ▸ hc), fun h => hquote (h ▸ hc)⟩
    rw [List.dropWhile_append_of_pos hspec, List.takeWhile_append_of_pos hspec]
    simp

/-- A segment without quotes is cut at a delimiter that it has. -/
theorem fieldDelimiter_notMem_of_splitField?_eq_none (h : d.splitField? seg = none)
    (hquote : d.quote ∉ seg) : d.fieldDelimiter ∉ seg := by
  intro hmem
  obtain ⟨spec, value, rfl, hspec⟩ := List.eq_append_cons_of_mem hmem
  have hquote' : d.quote ∉ spec := fun hc => hquote (List.mem_append_left _ hc)
  rw [splitField?_eq_some_iff.mpr ⟨rfl, hspec, hquote'⟩] at h
  cases h

/-- A segment that has its field goes on with its value. -/
theorem splitField?_append (h : d.splitField? seg = some (spec, value)) (more : Text) :
    d.splitField? (seg ++ more) = some (spec, value ++ more) := by
  obtain ⟨rfl, hdelim, hquote⟩ := splitField?_eq_some_iff.mp h
  exact splitField?_eq_some_iff.mpr ⟨by simp, hdelim, hquote⟩

/-- A segment whose field does not come before a quote has none. -/
theorem splitField?_append_quote (hd : d.Sound) (h : d.splitField? seg = none) (more : Text) :
    d.splitField? (seg ++ d.quote :: more) = none := by
  rw [Option.eq_none_iff_forall_ne_some]
  rintro ⟨spec, value⟩ hsplit
  obtain ⟨heq, hdelim, hspec⟩ := splitField?_eq_some_iff.mp hsplit
  rcases List.append_eq_append_iff.mp heq with ⟨z, rfl, hz⟩ | ⟨z, rfl, hz⟩
  · cases z with
    | nil => exact hd.fieldDelimiter_ne_quote (List.cons.inj hz).1.symm
    | cons c z =>
        obtain ⟨rfl, -⟩ := List.cons.inj hz
        exact hspec (by simp)
  · cases z with
    | nil => exact hd.fieldDelimiter_ne_quote (List.cons.inj hz).1
    | cons c z =>
        -- the delimiter would stand in the part that has none
        obtain ⟨rfl, -⟩ := List.cons.inj hz
        rw [splitField?_eq_some_iff.mpr ⟨rfl, hdelim, hspec⟩] at h
        cases h

/-- A segment with a quote in front of any delimiter has no field, however it goes on. -/
theorem splitField?_append_of_mem (hd : d.Sound) (h : d.splitField? seg = none)
    (hquote : d.quote ∈ seg) (more : Text) : d.splitField? (seg ++ more) = none := by
  obtain ⟨front, rest, rfl, -⟩ := List.eq_append_cons_of_mem hquote
  have hfront : d.splitField? front = none := by
    cases hsplit : d.splitField? front with
    | none => rfl
    | some cut => rw [splitField?_append hsplit] at h; cases h
  simpa using splitField?_append_quote hd hfront (rest ++ more)

/-- A segment without delimiters has no field. -/
theorem splitField?_eq_none_of_notMem (h : d.fieldDelimiter ∉ seg) :
    d.splitField? seg = none := by
  rw [Option.eq_none_iff_forall_ne_some]
  rintro ⟨spec, value⟩ hsplit
  obtain ⟨rfl, -, -⟩ := splitField?_eq_some_iff.mp hsplit
  simp at h

/-! ### The meaning of a segment -/

/-- The text without its quotes. -/
def unquote (d : Dialect) (t : Text) : Text :=
  t.filter (· != d.quote)

theorem unquote_eq_self {t : Text} (h : d.quote ∉ t) : d.unquote t = t :=
  List.filter_eq_self.mpr (bne_quote_of_notMem h)

/-- The part of a segment that is its value: what follows the field, or all of it. -/
def valuePart (d : Dialect) (seg : Text) : Text :=
  match d.splitField? seg with
  | some (_, value) => value
  | none => seg

/-- The value of a segment: the part that is its value, first without the white space on both
sides and then without quotes, so that white space inside quotes stays. -/
def valueOf (d : Dialect) (seg : Text) : Text :=
  d.unquote (d.valuePart seg).trim

/-- The field of a segment, when it has one that is well formed. -/
def fieldOf? (d : Dialect) (seg : Text) : Option FieldSpec :=
  (d.splitField? seg).bind fun cut => FieldSpec.ofText? d cut.1.trim

/-- The term of a segment. -/
def termOf (d : Dialect) (seg : Text) : Term where
  value := d.valueOf seg
  field := (d.fieldOf? seg).map FieldSpec.name
  operator := (d.fieldOf? seg).bind FieldSpec.operator
  modifier := (d.fieldOf? seg).bind FieldSpec.modifier

/-- The place of the field delimiter in a segment whose field is at fault: its specification
is not well formed, or no value follows. -/
def fieldFault? (d : Dialect) (seg : Text) : Option Nat :=
  match d.splitField? seg with
  | none => none
  | some (spec, value) =>
    if (FieldSpec.ofText? d spec.trim).isNone || value.all Text.isBlank then
      some (Text.byteSize spec)
    else none

/-- The place of the first character that is not white space, in a text that begins at
`position`. -/
def firstPlace? (position : Nat) (seg : Text) : Option Nat :=
  if seg.all Text.isBlank then none
  else some (position + Text.byteSize (seg.takeWhile Text.isBlank))

/-- The text in front of the last quote. -/
def beforeLastQuote (d : Dialect) (seg : Text) : Text :=
  ((seg.reverse.dropWhile (· != d.quote)).drop 1).reverse

/-- The token of the segment that begins at `position`, none for a blank one; or its error: a
field at fault, or else a quoted part that does not end. -/
def readSegment (d : Dialect) (position : Nat) (seg : Text) : Except ParseError (Option Token) :=
  match d.fieldFault? seg with
  | some n =>
    .error { fault := .malformedField, position := position + n,
             character := some d.fieldDelimiter }
  | none =>
    if d.Outside seg then
      .ok ((firstPlace? position seg).map (⟨.term (d.termOf seg), ·⟩))
    else
      .error { fault := .unclosedQuote,
               position := position + Text.byteSize (d.beforeLastQuote seg),
               character := some d.quote }

/-- A segment with a specification that is not well formed. -/
theorem readSegment_of_malformed (position : Nat) (h : d.splitField? seg = some (spec, value))
    (hspec : FieldSpec.ofText? d spec.trim = none) :
    d.readSegment position seg
      = .error { fault := .malformedField, position := position + Text.byteSize spec,
                 character := some d.fieldDelimiter } := by
  rw [readSegment, fieldFault?, h]
  simp [hspec]

/-- The last quote of a text, by what follows it. -/
theorem beforeLastQuote_append {front after : Text} (h : d.quote ∉ after) :
    d.beforeLastQuote (front ++ d.quote :: after) = front := by
  have hafter := bne_quote_of_notMem (t := after.reverse) (mt List.mem_reverse.mp h)
  rw [beforeLastQuote, List.reverse_append, List.reverse_cons, List.append_assoc,
    List.dropWhile_append_of_pos hafter]
  simp

/-- A text with a quote has a last one. -/
theorem exists_last_quote {t : Text} (h : d.quote ∈ t) :
    ∃ front after, t = front ++ d.quote :: after ∧ d.quote ∉ after := by
  obtain ⟨x, y, hrev, hx⟩ := List.eq_append_cons_of_mem (List.mem_reverse.mpr h)
  refine ⟨y.reverse, x.reverse, ?_, fun hmem => hx (List.mem_reverse.mp hmem)⟩
  rw [← List.reverse_reverse t, hrev]
  simp

/-- A text in front does not change which quote is the last one. -/
theorem beforeLastQuote_append_of_mem {front t : Text} (h : d.quote ∈ t) :
    d.beforeLastQuote (front ++ t) = front ++ d.beforeLastQuote t := by
  obtain ⟨before, after, rfl, hafter⟩ := exists_last_quote h
  rw [beforeLastQuote_append hafter, ← List.append_assoc, beforeLastQuote_append hafter]

/-- A segment has no fault when its field, if it has one, is well formed and has a value. -/
theorem fieldFault?_eq_none_iff : d.fieldFault? seg = none ↔
    ∀ spec value, d.splitField? seg = some (spec, value) →
      (∃ f, FieldSpec.ofText? d spec.trim = some f) ∧ value.all Text.isBlank = false := by
  rw [fieldFault?]
  constructor
  · rintro h spec value hsplit
    rw [hsplit] at h
    simpa [← Option.ne_none_iff_exists'] using h
  · intro h
    cases hsplit : d.splitField? seg with
    | none => rfl
    | some cut =>
        obtain ⟨⟨f, hf⟩, hvalue⟩ := h cut.1 cut.2 hsplit
        simp [hf, hvalue]

/-- A segment at fault has a field delimiter there. -/
theorem exists_of_fieldFault?_eq_some {n : Nat} (h : d.fieldFault? seg = some n) :
    ∃ spec value, seg = spec ++ d.fieldDelimiter :: value ∧ n = Text.byteSize spec := by
  rw [fieldFault?] at h
  split at h
  · cases h
  · next spec value hsplit =>
    split at h
    · exact ⟨spec, value, (splitField?_eq_some_iff.mp hsplit).1, (Option.some.inj h).symm⟩
    · cases h

/-! ### The token of a segment -/

variable {p place : Nat} {term : Option Token} {t : Token}

/-- When the segment of a query has no error, and which token it has then. -/
theorem readSegment_eq_ok_iff : d.readSegment p seg = .ok term ↔
    d.fieldFault? seg = none ∧ d.Outside seg ∧
      term = (firstPlace? p seg).map (⟨.term (d.termOf seg), ·⟩) := by
  rw [readSegment]
  split
  · next hfault => simp [hfault]
  · next hfault =>
    split
    · next hout => simp [hfault, hout, eq_comm]
    · next hout => simp [hout]

/-- A segment that has no fault and is not blank gives its term. -/
theorem exists_readSegment_eq_ok (hfault : d.fieldFault? seg = none) (hout : d.Outside seg)
    (hblank : seg.all Text.isBlank = false) :
    ∃ place, d.readSegment p seg = .ok (some ⟨.term (d.termOf seg), place⟩) := by
  refine ⟨p + Text.byteSize (seg.takeWhile Text.isBlank),
    readSegment_eq_ok_iff.mpr ⟨hfault, hout, ?_⟩⟩
  simp [firstPlace?, hblank]

/-- A blank segment gives nothing. -/
theorem readSegment_of_blank (hd : d.Sound) (h : seg.all Text.isBlank = true) :
    d.readSegment p seg = .ok none := by
  have hsplit := splitField?_eq_none_of_notMem (hd.fieldDelimiter_notMem_of_blank h)
  have hfault : d.fieldFault? seg = none := by rw [fieldFault?, hsplit]
  refine readSegment_eq_ok_iff.mpr ⟨hfault, outside_of_notMem (hd.quote_notMem_of_blank h), ?_⟩
  simp [firstPlace?, h]

/-- The first place of a text is that of one of its characters. -/
theorem exists_of_firstPlace?_eq_some (h : firstPlace? p seg = some place) :
    ∃ lead c rest, seg = lead ++ c :: rest ∧ place = p + Text.byteSize lead := by
  rw [firstPlace?] at h
  split at h
  · cases h
  · next hblank =>
    obtain rfl := Option.some.inj h
    -- a character that is not white space is left
    cases hdrop : seg.dropWhile Text.isBlank with
    | nil => exact absurd (by simpa using hdrop) hblank
    | cons c rest =>
        refine ⟨seg.takeWhile Text.isBlank, c, rest, ?_, rfl⟩
        rw [← hdrop, List.takeWhile_append_dropWhile]

/-- The first place of a text is inside it. -/
theorem firstPlace?_bounds (h : firstPlace? p seg = some place) :
    p ≤ place ∧ place < p + Text.byteSize seg := by
  obtain ⟨lead, c, rest, rfl, rfl⟩ := exists_of_firstPlace?_eq_some h
  have := c.utf8Size_pos
  simp only [Text.byteSize_append, Text.byteSize_cons]
  omega

/-- The token of a segment is inside it. -/
theorem readSegment_bounds (h : d.readSegment p seg = .ok (some t)) :
    p ≤ t.position ∧ t.position < p + Text.byteSize seg := by
  obtain ⟨-, -, hterm⟩ := readSegment_eq_ok_iff.mp h
  obtain ⟨place, hplace, rfl⟩ := Option.map_eq_some_iff.mp hterm.symm
  exact firstPlace?_bounds hplace

end Dialect

end BoolQuery
