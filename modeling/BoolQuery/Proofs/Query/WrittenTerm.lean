import BoolQuery.Proofs.Balance
import BoolQuery.Proofs.Query.Writable

/-!
# The Written Form of a Term

A term is written as its field specification with the delimiter, and its value, in quotes if it
has to be. Written outside quotes and in front of the end or of a character that ends words,
this is a stretch of a segment without a mark, and any segment that has nothing else than
white space around it gives the term back.

## Main results

* `Term.Writable.plain`: no mark begins in the written form.
* `Term.Writable.readSegment`: the written form with white space around it gives the term.
* `Term.Writable.neutral`: the written form passes the bracket check.
-/

namespace BoolQuery

open Dialect

variable {d : Dialect} {before seg after value lead trail : Text} {f : FieldSpec} {t : Term}

/-! ### The written form of a specification -/

/-- The written form of a specification passes the bracket check: its brackets are those around
the modifier and the operator. -/
theorem FieldSpec.Writable.neutral (hd : d.Sound) (h : f.Writable d) :
    Balance.Neutral d (f.text d) := by
  have hpart : ∀ part, FieldSpec.IsPart d part → (∀ c ∈ part, c ∈ f.text d) →
      Balance.Neutral d part := by
    rintro part ⟨-, hbrackets⟩ hmem
    refine Balance.neutral_of_forall fun c hc => ⟨?_, ?_⟩
    · exact fun heq => h.quote_notMem (heq ▸ hmem c hc)
    · exact bracket?_eq_none_iff.mpr ⟨h.isGrouping c (hmem c hc), hbrackets c hc⟩
  have hmodifier : Balance.Neutral d (Term.canonicalSection d.modifier f.modifier) := by
    cases hm : f.modifier with
    | none => exact Balance.neutral_nil
    | some part =>
        refine (hpart part (h.wellFormed.modifier part hm) fun c hc => ?_).bracketed hd .modifier
        simp [FieldSpec.text, Term.canonicalSection, hm, hc]
  have hoperator : Balance.Neutral d (Term.canonicalSection d.fieldOperator f.operator) := by
    cases ho : f.operator with
    | none => exact Balance.neutral_nil
    | some part =>
        refine (hpart part (h.wellFormed.operator part ho) fun c hc => ?_).bracketed hd
          .fieldOperator
        simp [FieldSpec.text, Term.canonicalSection, ho, hc]
  refine (hpart f.name h.wellFormed.name fun c hc => ?_).append (hmodifier.append hoperator)
  simp [FieldSpec.text, hc]

/-- A writable specification, with white space in front of it, is read as itself. -/
theorem FieldSpec.Writable.ofText?_trim (hd : d.Sound) (h : f.Writable d)
    (hlead : lead.all Text.isBlank = true) :
    FieldSpec.ofText? d (lead ++ f.text d).trim = some f := by
  rw [Text.trim_blank_append hlead, h.trim]
  exact (FieldSpec.ofText?_eq_some_iff hd).mpr ⟨rfl, h.wellFormed⟩

namespace Term

/-! ### The written form of a value -/

/-- A value that needs no quotes is one word that is no keyword. -/
theorem needsQuotes_eq_false_iff : needsQuotes d value = false ↔
    value ≠ [] ∧ (∀ op, value ≠ d.keyword op) ∧
      ∀ c ∈ value, Text.isBlank c = false ∧ c ≠ d.fieldDelimiter ∧ d.bracket? c = none := by
  have hops : (∀ op, value ≠ d.keyword op) ↔ ∀ op ∈ Operator.all, value ≠ d.keyword op :=
    ⟨fun h op _ => h op, fun h op => h op op.mem_all⟩
  rw [hops]
  simp [needsQuotes, and_assoc]

/-- The characters of a value that needs no quotes end no words. -/
theorem endsWord_of_needsQuotes (h : needsQuotes d value = false)
    (hquote : d.quote ∉ value) : ∀ c ∈ value, d.endsWord c = false := by
  intro c hc
  obtain ⟨hblank, -, hbracket⟩ := (needsQuotes_eq_false_iff.mp h).2.2 c hc
  have hne : c ≠ d.quote := fun heq => hquote (heq ▸ hc)
  simp [endsWord, hblank, (bracket?_eq_none_iff.mp hbracket).1, hne]

/-- No mark begins in a value, written in front of the end or a character that ends words. -/
theorem plain_canonicalValue (hd : d.Sound) (hquote : d.quote ∉ value)
    (hout : d.Outside before) (hafter : after.head?.all d.endsWord = true) :
    d.Plain before (canonicalValue d value) after := by
  rw [canonicalValue]
  split
  · have hinside : ¬ d.Outside (before ++ [d.quote]) :=
      mt outside_append_quote.mp (not_not.mpr hout)
    refine plain_cons_iff.mpr ⟨hd.noMark_quote, plain_append_iff.mpr ⟨?_, ?_⟩⟩
    · exact plain_of_not_outside hd hinside hquote
    · exact plain_cons_iff.mpr ⟨hd.noMark_quote, plain_nil⟩
  · next hneeds =>
    simp only [Bool.not_eq_true] at hneeds
    have hword := endsWord_of_needsQuotes hneeds hquote
    obtain ⟨-, hkeyword, hchars⟩ := needsQuotes_eq_false_iff.mp hneeds
    rintro x c y rfl
    refine hd.noMark_cons_iff.mpr fun _ => ⟨?_, fun hstart => ?_⟩
    · exact (bracket?_eq_none_iff.mp (hchars c (by simp)).2.2).1
    · by_cases hx : x = []
      · subst hx
        by_contra hkey
        obtain ⟨⟨op, rest⟩, hop⟩ := Option.ne_none_iff_exists'.mp hkey
        exact hkeyword op (hd.keyword_eq_of_keywordAt? (t := c :: y) hop hword hafter).symm
      · refine absurd hstart (not_wordStart_append hx fun c' hc' => ?_)
        exact hword c' (List.mem_append_left _ hc')

/-- The written form of a value has an even number of quotes. -/
theorem outside_canonicalValue (hquote : d.quote ∉ value) :
    d.Outside (canonicalValue d value) := by
  rw [canonicalValue]
  split
  · simp [Outside, List.count_append, List.count_eq_zero.mpr hquote]
  · exact outside_of_notMem hquote

/-- There is no white space around the written form of a value. -/
theorem trim_canonicalValue (hd : d.Sound) (value : Text) :
    (canonicalValue d value).trim = canonicalValue d value := by
  rw [canonicalValue]
  split
  · refine Text.trim_eq_self hd.isBlank_quote rfl hd.isBlank_quote ?_
    simp [List.getLast?_cons, List.getLast?_append]
  · next hneeds =>
    simp only [Bool.not_eq_true] at hneeds
    obtain ⟨hne, -, hchars⟩ := needsQuotes_eq_false_iff.mp hneeds
    exact Text.trim_eq_self (hchars _ (List.head_mem hne)).1 (List.head?_eq_some_head hne)
      (hchars _ (List.getLast_mem hne)).1 (List.getLast?_eq_some_getLast hne)

/-- The written form of a value gives the value back. -/
theorem unquote_canonicalValue (hquote : d.quote ∉ value) :
    d.unquote (canonicalValue d value) = value := by
  have hself : value.filter (· != d.quote) = value := unquote_eq_self hquote
  rw [canonicalValue]
  split
  · simp [unquote, hself]
  · exact hself

/-- The written form of a value is not blank. -/
theorem all_isBlank_canonicalValue (hd : d.Sound) (value : Text) :
    (canonicalValue d value).all Text.isBlank = false := by
  rw [Bool.eq_false_iff]
  intro hblank
  have hnil : canonicalValue d value = [] :=
    (trim_canonicalValue hd value).symm.trans (Text.trim_eq_nil_iff.mpr hblank)
  rw [canonicalValue] at hnil
  split at hnil
  · cases hnil
  · next hneeds => exact hneeds (by simp [hnil, needsQuotes])

/-- The written form of a value passes the bracket check. -/
theorem neutral_canonicalValue (hquote : d.quote ∉ value) :
    Balance.Neutral d (canonicalValue d value) := by
  rw [canonicalValue]
  split
  · exact Balance.neutral_quoted hquote
  · next hneeds =>
    simp only [Bool.not_eq_true] at hneeds
    obtain ⟨-, -, hchars⟩ := needsQuotes_eq_false_iff.mp hneeds
    exact Balance.neutral_of_forall fun c hc => ⟨fun heq => hquote (heq ▸ hc), (hchars c hc).2.2⟩

/-! ### The written form of a term -/

/-- No mark begins in a term, written in front of the end or a character that ends words. -/
theorem Writable.plain (hd : d.Sound) (h : t.Writable d) (hout : d.Outside before)
    (hafter : after.head?.all d.endsWord = true) : d.Plain before (t.canonical d) after := by
  rw [canonical, canonicalField_eq]
  cases hspec : t.spec? with
  | none => exact plain_canonicalValue hd h.quote_notMem hout hafter
  | some f =>
      have hf := h.spec f hspec
      have hfield : d.quote ∉ f.text d ++ [d.fieldDelimiter] := by
        simp [hf.quote_notMem, hd.fieldDelimiter_ne_quote.symm]
      refine plain_append_iff.mpr ⟨hf.plain _ _ hout, ?_⟩
      exact plain_canonicalValue hd h.quote_notMem
        ((outside_append_of_notMem hfield).mpr hout) hafter

/-- The written form of a term has an even number of quotes. -/
theorem Writable.outside (hd : d.Sound) (h : t.Writable d) : d.Outside (t.canonical d) := by
  rw [canonical, canonicalField_eq]
  have hvalue := outside_canonicalValue h.quote_notMem
  cases hspec : t.spec? with
  | none => exact hvalue
  | some f =>
      have hf := h.spec f hspec
      have hfield : d.quote ∉ f.text d ++ [d.fieldDelimiter] := by
        simp [hf.quote_notMem, hd.fieldDelimiter_ne_quote.symm]
      exact (outside_of_notMem hfield).append_iff.mpr hvalue

/-- A value without a field, with white space around it, is no field. -/
theorem splitField?_canonicalValue (hd : d.Sound) (value : Text)
    (hlead : lead.all Text.isBlank = true) (htrail : trail.all Text.isBlank = true) :
    d.splitField? (lead ++ (canonicalValue d value ++ trail)) = none := by
  have hdelimLead := hd.fieldDelimiter_notMem_of_blank hlead
  have hdelimTrail := hd.fieldDelimiter_notMem_of_blank htrail
  rw [canonicalValue]
  split
  · exact splitField?_append_quote hd (splitField?_eq_none_of_notMem hdelimLead) _
  · next hneeds =>
    simp only [Bool.not_eq_true] at hneeds
    obtain ⟨-, -, hchars⟩ := needsQuotes_eq_false_iff.mp hneeds
    have hdelim : d.fieldDelimiter ∉ value := fun hmem => (hchars _ hmem).2.1 rfl
    exact splitField?_eq_none_of_notMem (by simp [hdelimLead, hdelim, hdelimTrail])

/-- The written form of a term, with white space around it, is cut behind its specification. -/
theorem Writable.splitField?_canonical (hd : d.Sound) (h : t.Writable d)
    (hlead : lead.all Text.isBlank = true) (htrail : trail.all Text.isBlank = true) :
    d.splitField? (lead ++ (t.canonical d ++ trail))
      = t.spec?.map fun f => (lead ++ f.text d, canonicalValue d t.value ++ trail) := by
  rw [canonical, canonicalField_eq]
  cases hspec : t.spec? with
  | none =>
      rw [List.nil_append]
      exact splitField?_canonicalValue hd t.value hlead htrail
  | some f =>
      have hf := h.spec f hspec
      refine splitField?_eq_some_iff.mpr ⟨by simp, ?_, ?_⟩
      · simp [hd.fieldDelimiter_notMem_of_blank hlead, hf.fieldDelimiter_notMem]
      · simp [hd.quote_notMem_of_blank hlead, hf.quote_notMem]

/-- The written form of a term, with white space around it, has the term. -/
theorem Writable.termOf_canonical (hd : d.Sound) (h : t.Writable d)
    (hlead : lead.all Text.isBlank = true) (htrail : trail.all Text.isBlank = true) :
    d.termOf (lead ++ (t.canonical d ++ trail)) = t := by
  have hsplit := h.splitField?_canonical hd hlead htrail
  have hvalue : d.unquote (canonicalValue d t.value ++ trail).trim = t.value := by
    rw [Text.trim_append_blank htrail, trim_canonicalValue hd,
      unquote_canonicalValue h.quote_notMem]
  refine termOf_eq ?_ ?_ h.bare
  · rw [valueOf, valuePart, hsplit]
    cases hspec : t.spec? with
    | none =>
        rw [canonical, canonicalField_eq, hspec]
        simpa [Text.trim_blank_append hlead] using hvalue
    | some f => exact hvalue
  · rw [fieldOf?, hsplit]
    cases hspec : t.spec? with
    | none => rfl
    | some f => exact (h.spec f hspec).ofText?_trim hd hlead

/-- The written form of a term, with white space around it, is not at fault. -/
theorem Writable.fieldFault?_canonical (hd : d.Sound) (h : t.Writable d)
    (hlead : lead.all Text.isBlank = true) (htrail : trail.all Text.isBlank = true) :
    d.fieldFault? (lead ++ (t.canonical d ++ trail)) = none := by
  rw [fieldFault?, h.splitField?_canonical hd hlead htrail]
  cases hspec : t.spec? with
  | none => rfl
  | some f => simp [(h.spec f hspec).ofText?_trim hd hlead, all_isBlank_canonicalValue hd]

/-- **The written form of a term, with white space around it, gives the term back.** -/
theorem Writable.readSegment (hd : d.Sound) (h : t.Writable d)
    (hlead : lead.all Text.isBlank = true) (htrail : trail.all Text.isBlank = true)
    (position : Nat) :
    ∃ place, d.readSegment position (lead ++ (t.canonical d ++ trail))
      = .ok (some ⟨.term t, place⟩) := by
  have hout : d.Outside (lead ++ (t.canonical d ++ trail)) := by
    rw [← List.append_assoc, outside_append_of_notMem (hd.quote_notMem_of_blank htrail),
      (outside_of_notMem (hd.quote_notMem_of_blank hlead)).append_iff]
    exact h.outside hd
  have hblank : (lead ++ (t.canonical d ++ trail)).all Text.isBlank = false := by
    simp [canonical, all_isBlank_canonicalValue hd]
  have hread := exists_readSegment_eq_ok (p := position)
    (h.fieldFault?_canonical hd hlead htrail) hout hblank
  rwa [h.termOf_canonical hd hlead htrail] at hread

/-- **The written form of a term passes the bracket check.** -/
theorem Writable.neutral (hd : d.Sound) (h : t.Writable d) :
    Balance.Neutral d (t.canonical d) := by
  rw [canonical, canonicalField_eq]
  refine Balance.Neutral.append ?_ (neutral_canonicalValue h.quote_notMem)
  cases hspec : t.spec? with
  | none => exact Balance.neutral_nil
  | some f =>
      refine ((h.spec f hspec).neutral hd).append (Balance.neutral_of_forall ?_)
      simp [hd.fieldDelimiter_ne_quote, hd.bracket?_eq_none]

end Term

end BoolQuery
