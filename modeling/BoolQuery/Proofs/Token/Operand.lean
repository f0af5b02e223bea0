import BoolQuery.Proofs.Token.Segment

/-!
# What the Scanner Keeps of a Segment

While the scanner goes through a segment, it keeps its text backwards in two parts, a flag, a
place, and the field. All of these are functions of the segment read so far, and each kind of
step extends the segment: this is the invariant of the scanner inside a segment. When the
segment ends, what is kept gives exactly the token or the error that the segment means.

## Main definitions

* `Operand.ofValue`: what is kept when the text of the value so far is given.
* `Operand.Reads d position seg o`: the operand `o` is what is kept of the segment `seg` that
  begins at `position`.

## Main results

* `Operand.Reads.push`, `Operand.Reads.pushQuoted`, `Operand.Reads.startField`: each step inside
  a segment keeps the invariant, or fails as the segment says.
* `Operand.Reads.token?`: the end of the segment.
-/

namespace BoolQuery

open Dialect

namespace Operand

variable {d : Dialect} {position : Nat} {seg v content : Text} {start : Option Nat}
  {field : Option (FieldSpec × Nat)} {o : Operand} {c : Char} {p : Nat}

/-- What is kept when `v` is the text of the value so far. -/
def ofValue (d : Dialect) (start : Option Nat) (field : Option (FieldSpec × Nat)) (v : Text) :
    Operand where
  kept := (v.trimStart.reverse.dropWhile (· != d.quote)).filter (· != d.quote)
  loose := v.trimStart.reverse.takeWhile (· != d.quote)
  start
  quoted := decide (d.quote ∈ v)
  field

/-- The operand `o` is what is kept of the segment `seg`, which begins at `position`. -/
inductive Reads (d : Dialect) (position : Nat) : (seg : Text) → (o : Operand) → Prop
  | plain {seg : Text} :
      d.splitField? seg = none →
      Reads d position seg (ofValue d (firstPlace? position seg) none seg)
  | field {seg spec value : Text} {f : FieldSpec} :
      d.splitField? seg = some (spec, value) → FieldSpec.ofText? d spec.trim = some f →
      Reads d position seg
        (ofValue d (firstPlace? position seg) (some (f, position + Text.byteSize spec)) value)

/-- Nothing is kept at the start of a segment. -/
theorem reads_nil : Reads d position [] {} := by
  have : Reads d position [] (ofValue d (firstPlace? position []) none []) :=
    .plain (splitField?_eq_none_of_notMem (by simp))
  simpa [ofValue, firstPlace?, Text.trimStart] using this

/-! ### Places -/

/-- The first character of a longer text. -/
theorem firstPlace?_append (position : Nat) (seg more : Text) :
    firstPlace? position (seg ++ more) =
      if seg.all Text.isBlank then firstPlace? (position + Text.byteSize seg) more
      else firstPlace? position seg := by
  by_cases hblank : seg.all Text.isBlank = true
  · have htake : seg.takeWhile Text.isBlank = seg :=
      List.takeWhile_eq_self_iff.mpr (by simpa using hblank)
    simp only [firstPlace?, List.all_append, hblank, Bool.true_and, if_true,
      List.takeWhile_append_of_pos (List.all_eq_true.mp hblank), Text.byteSize_append,
      Nat.add_assoc]
  · have htake : (seg ++ more).takeWhile Text.isBlank = seg.takeWhile Text.isBlank := by
      rw [List.takeWhile_append, if_neg]
      intro hlen
      have := (List.takeWhile_prefix (l := seg) Text.isBlank).eq_of_length hlen
      exact hblank (by simpa using List.takeWhile_eq_self_iff.mp this)
    simp only [Bool.not_eq_true] at hblank
    simp [firstPlace?, List.all_append, hblank, htake]

/-! ### Steps, by the value so far -/

/-- The two parts that are kept make up the text without its quotes. -/
theorem loose_append_kept (r : Text) :
    r.takeWhile (· != d.quote) ++ (r.dropWhile (· != d.quote)).filter (· != d.quote)
      = r.filter (· != d.quote) := by
  have hall : ∀ x ∈ r.takeWhile (· != d.quote), (x != d.quote) = true :=
    fun _ hx => List.mem_takeWhile_imp (p := (· != d.quote)) hx
  conv_rhs => rw [← List.takeWhile_append_dropWhile (p := (· != d.quote)) (l := r)]
  rw [List.filter_append, List.filter_eq_self.mpr hall]

/-- The text that is kept, in reading order and without the white space at its end that is not
quoted, is the trimmed value without its quotes. -/
theorem trimmed_ofValue (hd : d.Sound) (start : Option Nat) (field : Option (FieldSpec × Nat))
    (v : Text) : (ofValue d start field v).trimmed = d.unquote v.trim := by
  have hrev : ∀ r : Text, (r.takeWhile (· != d.quote)).dropWhile Text.isBlank
      ++ (r.dropWhile (· != d.quote)).filter (· != d.quote)
      = (r.dropWhile Text.isBlank).filter (· != d.quote) := by
    intro r
    induction r with
    | nil => rfl
    | cons c r ih =>
        by_cases hc : c = d.quote
        · subst hc
          simp [hd.isBlank_quote]
        · by_cases hblank : Text.isBlank c = true
          · simpa [hc, hblank] using ih
          · simpa [hc, hblank] using loose_append_kept r
  rw [trimmed, ofValue, unquote, hrev, ← List.filter_reverse]
  rfl

/-- A value that is left empty without a quoted part is blank. -/
theorem isEmpty_unquote_trim (hd : d.Sound) (v : Text) :
    ((d.unquote v.trim).isEmpty && !decide (d.quote ∈ v)) = v.all Text.isBlank := by
  by_cases hquote : d.quote ∈ v
  · have hblank : v.all Text.isBlank = false := by
      simp only [List.all_eq_false, Bool.not_eq_true]
      exact ⟨d.quote, hquote, hd.isBlank_quote⟩
    simp [hquote, hblank]
  · rw [unquote_eq_self (mt Text.mem_of_mem_trim hquote), Bool.eq_iff_iff, ← Text.trim_eq_nil_iff]
    simp [hquote]

/-- Nothing is kept exactly as long as only white space has come. -/
theorem ofValue_isEmpty_iff (hd : d.Sound) (start : Option Nat)
    (field : Option (FieldSpec × Nat)) (v : Text) :
    (ofValue d start field v).loose = [] ∧ (ofValue d start field v).kept = [] ∧
      (ofValue d start field v).quoted = false ↔ v.all Text.isBlank = true := by
  constructor
  · rintro ⟨hloose, -, hquoted⟩
    have hquote : d.quote ∉ v := by simpa [ofValue] using hquoted
    have hmem : ∀ c ∈ v.trimStart.reverse, (c != d.quote) = true := by
      refine bne_quote_of_notMem fun hc => hquote ?_
      exact (List.dropWhile_suffix _).subset (List.mem_reverse.mp hc)
    have hrev : v.trimStart.reverse = [] := by
      rw [← List.takeWhile_eq_self_iff.mpr hmem]
      exact hloose
    exact Text.trimStart_eq_nil_iff.mp (List.reverse_eq_nil_iff.mp hrev)
  · intro hblank
    have hquote := hd.quote_notMem_of_blank hblank
    simp [ofValue, Text.trimStart_eq_nil_iff.mpr hblank, hquote]

/-- A character that is not a quote goes to the loose part, unless only white space has come. -/
theorem push_ofValue (hd : d.Sound) (hc : c ≠ d.quote) :
    (ofValue d start field v).push p c =
      ofValue d (if (v ++ [c]).all Text.isBlank then start else some (start.getD p)) field
        (v ++ [c]) := by
  have hquoted : d.quote ∈ v ++ [c] ↔ d.quote ∈ v := by simp [Ne.symm hc]
  have hempty := ofValue_isEmpty_iff hd start field v
  by_cases hblank : (v ++ [c]).all Text.isBlank = true
  · obtain ⟨hv, hc'⟩ : v.all Text.isBlank = true ∧ Text.isBlank c = true := by
      simpa using hblank
    obtain ⟨hloose, hkept, hq⟩ := hempty.mpr hv
    rw [push, if_pos (by simp [hc', hloose, hkept, hq]), if_pos hblank]
    simp [ofValue, Text.trimStart_eq_nil_iff.mpr hv, Text.trimStart_eq_nil_iff.mpr hblank,
      hquoted]
  · have hne : ¬ (Text.isBlank c && (ofValue d start field v).loose.isEmpty
        && (ofValue d start field v).kept.isEmpty
        && !(ofValue d start field v).quoted) = true := by
      intro hcond
      simp only [Bool.and_eq_true, List.isEmpty_iff, Bool.not_eq_true'] at hcond
      obtain ⟨⟨⟨hc', hloose⟩, hkept⟩, hq⟩ := hcond
      have hv := hempty.mp ⟨hloose, hkept, hq⟩
      exact hblank (by simp [hv, hc'])
    have htrim : (v ++ [c]).trimStart = v.trimStart ++ [c] := by
      refine Text.trimStart_append_cons ?_
      simp only [List.all_append, List.all_cons, List.all_nil, Bool.and_true,
        Bool.and_eq_true, not_and_or, Bool.not_eq_true] at hblank
      exact hblank
    rw [push, if_neg hne, if_neg hblank]
    simp [ofValue, htrim, hquoted, hc]

/-- A quoted part and everything before it is kept. -/
theorem pushQuoted_ofValue (hd : d.Sound) (hcontent : d.quote ∉ content) :
    (ofValue d start field v).pushQuoted p content =
      ofValue d (some (start.getD p)) field (v ++ d.quote :: (content ++ [d.quote])) := by
  have htrim : (v ++ d.quote :: (content ++ [d.quote])).trimStart
      = v.trimStart ++ d.quote :: (content ++ [d.quote]) :=
    Text.trimStart_append_cons (.inr hd.isBlank_quote)
  have hfilter : content.reverse.filter (· != d.quote) = content.reverse :=
    unquote_eq_self (mt List.mem_reverse.mp hcontent)
  simp [pushQuoted, ofValue, htrim, hfilter, loose_append_kept]

/-! ### Steps, by the segment so far -/

/-- A text that begins with something else than white space has a first place: its start. -/
theorem firstPlace?_append_cons (hc : Text.isBlank c = false) (more : Text) :
    firstPlace? position (seg ++ c :: more)
      = some ((firstPlace? position seg).getD (position + Text.byteSize seg)) := by
  rw [firstPlace?_append]
  split
  · next hblank => simp [firstPlace?, hblank, hc]
  · next hblank => simp [firstPlace?, hblank]

/-- The first place of a text with one more character, as the scanner keeps it. -/
theorem firstPlace?_append_singleton (position : Nat) (seg : Text) (c : Char) :
    firstPlace? position (seg ++ [c]) =
      if (seg ++ [c]).all Text.isBlank then firstPlace? position seg
      else some ((firstPlace? position seg).getD (position + Text.byteSize seg)) := by
  cases hc : Text.isBlank c with
  | false => rw [firstPlace?_append_cons hc, if_neg (by simp [hc])]
  | true =>
      rw [firstPlace?_append]
      cases hblank : seg.all Text.isBlank <;> simp [firstPlace?, hblank, hc]

/-- The first place of a text that is not blank does not move. -/
theorem firstPlace?_append_of_not_blank (hseg : seg.all Text.isBlank = false) (more : Text) :
    firstPlace? position (seg ++ more) = firstPlace? position seg := by
  rw [firstPlace?_append, hseg]
  rfl

/-- A segment with a field is not blank. -/
theorem all_isBlank_of_splitField? (hd : d.Sound) {spec value : Text}
    (h : d.splitField? seg = some (spec, value)) : seg.all Text.isBlank = false := by
  obtain ⟨rfl, -, -⟩ := splitField?_eq_some_iff.mp h
  simp [hd.isBlank_fieldDelimiter]

namespace Reads

/-- A delimiter ends a specification exactly when the segment has no field and no quote. -/
theorem acceptsField_iff (h : Reads d position seg o) :
    o.acceptsField = true ↔ d.splitField? seg = none ∧ d.quote ∉ seg := by
  cases h with
  | plain hsplit => simp [acceptsField, ofValue, hsplit]
  | field hsplit => simp [acceptsField, ofValue, hsplit]

/-- **A bare character.** -/
theorem push (hd : d.Sound) (h : Reads d position seg o) (hc : c ≠ d.quote)
    (hfield : ¬ (c = d.fieldDelimiter ∧ o.acceptsField = true)) :
    Reads d position (seg ++ [c]) (o.push (position + Text.byteSize seg) c) := by
  rw [h.acceptsField_iff] at hfield
  cases h with
  | plain hsplit =>
      have hsplit' : d.splitField? (seg ++ [c]) = none := by
        by_cases hquote : d.quote ∈ seg
        · exact splitField?_append_of_mem hd hsplit hquote [c]
        · have hdelim := fieldDelimiter_notMem_of_splitField?_eq_none hsplit hquote
          refine splitField?_eq_none_of_notMem ?_
          simp only [List.mem_append, List.mem_singleton, not_or]
          exact ⟨hdelim, fun heq => hfield ⟨heq.symm, hsplit, hquote⟩⟩
      rw [push_ofValue hd hc, ← firstPlace?_append_singleton]
      exact .plain hsplit'
  | @field spec value f hsplit hf =>
      have hseg := all_isBlank_of_splitField? hd hsplit
      have hsome : some ((firstPlace? position seg).getD (position + Text.byteSize seg))
          = firstPlace? position seg := by
        simp [firstPlace?, hseg]
      rw [push_ofValue hd hc, hsome, ite_self, ← firstPlace?_append_of_not_blank hseg [c]]
      exact .field (splitField?_append hsplit [c]) hf

/-- **A quoted part.** -/
theorem pushQuoted (hd : d.Sound) (h : Reads d position seg o) (hcontent : d.quote ∉ content) :
    Reads d position (seg ++ d.quote :: (content ++ [d.quote]))
      (o.pushQuoted (position + Text.byteSize seg) content) := by
  cases h with
  | plain hsplit =>
      rw [pushQuoted_ofValue hd hcontent, ← firstPlace?_append_cons hd.isBlank_quote]
      exact .plain (splitField?_append_quote hd hsplit _)
  | field hsplit hf =>
      rw [pushQuoted_ofValue hd hcontent, ← firstPlace?_append_cons hd.isBlank_quote]
      exact .field (splitField?_append hsplit _) hf

/-- **The field delimiter.** The text before it must be a well-formed specification. -/
theorem startField (hd : d.Sound) (h : Reads d position seg o) (haccept : o.acceptsField = true) :
    match FieldSpec.ofText? d seg.trim with
    | none => o.startField d (position + Text.byteSize seg) = .error
        { fault := .malformedField, position := position + Text.byteSize seg,
          character := some d.fieldDelimiter }
    | some _ => ∃ o', o.startField d (position + Text.byteSize seg) = .ok o' ∧
        Reads d position (seg ++ [d.fieldDelimiter]) o' := by
  obtain ⟨hnone, hquote⟩ := h.acceptsField_iff.mp haccept
  cases h with
  | field hsplit => rw [hnone] at hsplit; cases hsplit
  | plain =>
      have hspec : (ofValue d (firstPlace? position seg) none seg).trimmed = seg.trim := by
        rw [trimmed_ofValue hd, unquote_eq_self (mt Text.mem_of_mem_trim hquote)]
      have hdelim := fieldDelimiter_notMem_of_splitField?_eq_none hnone hquote
      have hsplit : d.splitField? (seg ++ [d.fieldDelimiter]) = some (seg, []) :=
        splitField?_eq_some_iff.mpr ⟨rfl, hdelim, hquote⟩
      rw [Operand.startField, hspec]
      cases hf : FieldSpec.ofText? d seg.trim with
      | none => rfl
      | some f =>
          refine ⟨_, rfl, ?_⟩
          have hreads : Reads d position (seg ++ [d.fieldDelimiter]) _ := .field hsplit hf
          rw [firstPlace?_append_cons hd.isBlank_fieldDelimiter] at hreads
          simpa [ofValue, hquote, Text.trimStart] using hreads

/-- A segment that goes on with a quote has no field at fault: what has been read is well formed,
and the quoted part makes a value. -/
theorem fieldFault?_append_quote (hd : d.Sound) (h : Reads d position seg o) (more : Text) :
    d.fieldFault? (seg ++ d.quote :: more) = none := by
  cases h with
  | plain hsplit => rw [fieldFault?, splitField?_append_quote hd hsplit]
  | field hsplit hf =>
      rw [fieldFault?, splitField?_append hsplit]
      simp [hf, hd.isBlank_quote]

/-- **The end of the segment.** -/
theorem token? (hd : d.Sound) (h : Reads d position seg o) (hout : d.Outside seg) :
    o.token? d = d.readSegment position seg := by
  cases h with
  | plain hsplit =>
      have hterm : d.termOf seg = { value := d.unquote seg.trim } := by
        simp [termOf, fieldOf?, valueOf, valuePart, hsplit]
      rw [readSegment, fieldFault?, hsplit]
      simp only [if_pos hout, hterm]
      rw [← trimmed_ofValue hd (firstPlace? position seg) none]
      simp only [Operand.token?, ofValue]
      cases firstPlace? position seg <;> rfl
  | @field spec value f hsplit hf =>
      have hstart : firstPlace? position seg
          = some (position + Text.byteSize (seg.takeWhile Text.isBlank)) := by
        simp [firstPlace?, all_isBlank_of_splitField? hd hsplit]
      have hterm : d.termOf seg = ⟨d.unquote value.trim, some f.name, f.operator, f.modifier⟩ := by
        simp [termOf, fieldOf?, valueOf, valuePart, hsplit, hf]
      have hempty := isEmpty_unquote_trim hd value
      rw [readSegment, fieldFault?, hsplit, hterm]
      simp only [hf, Option.isNone_some, Bool.false_or, if_pos hout]
      rw [← trimmed_ofValue hd (firstPlace? position seg)
        (some (f, position + Text.byteSize spec))] at hempty ⊢
      -- the test of the scanner for an empty value is `hempty`
      have hquoted : (ofValue d (firstPlace? position seg)
          (some (f, position + Text.byteSize spec)) value).quoted = decide (d.quote ∈ value) := rfl
      rw [← hquoted] at hempty
      rw [Operand.token?]
      simp only [hempty]
      by_cases hblank : value.all Text.isBlank = true
      · simp only [hblank, if_true, ofValue, hstart]
      · simp only [hblank, Bool.false_eq_true, if_false, ofValue, hstart, Option.map_some]

end Reads

end Operand

end BoolQuery
