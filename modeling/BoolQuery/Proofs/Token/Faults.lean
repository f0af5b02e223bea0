import BoolQuery.Proofs.Token.Structure

/-!
# Terms and Faults of a Query

Whether a query can be cut into tokens depends on its segments alone. The first segment whose
field is at fault stops the scan at its delimiter. If there is none, an odd number of quotes
stops it at the last quote; and otherwise each segment that is not blank gives its term.

## Main results

* `Layout.fault_cases`: no segment is at fault, or there is a first one.
* `Layout.tokens_of_fault`, `Layout.tokens_of_no_fault`: what the tokens of a layout are then.
* `mem_tokenize_term_iff`: the terms of a query.
* `tokenize_isOk_iff`, `tokenize_eq_error_iff`: when a query can be cut, and what its error is
  if not.
* `tokenize_operands`: the terms and the faults of a query.
-/

namespace BoolQuery

open Dialect

variable {d : Dialect} {before x : Text} {n p : Nat} {l tail : Layout}

namespace Layout

/-- No segment is at fault, or there is a first one. -/
theorem fault_cases (d : Dialect) (l : Layout) :
    (∀ x tail, Tail l x tail → d.fieldFault? tail.first = none) ∨
      ∃ x tail n, Tail l x tail ∧ d.fieldFault? tail.first = some n ∧
        ∀ y tail', Tail l y tail' → y.length < x.length → d.fieldFault? tail'.first = none := by
  induction l with
  | last seg =>
      cases hfault : d.fieldFault? seg with
      | none =>
          refine .inl fun x tail htail => ?_
          obtain ⟨rfl, rfl⟩ := tail_last_iff.mp htail
          exact hfault
      | some n => exact .inr ⟨[], _, n, .all _, hfault, by simp⟩
  | mark seg kind lexeme more ih =>
      cases hfault : d.fieldFault? seg with
      | some n => exact .inr ⟨[], _, n, .all _, hfault, by simp⟩
      | none =>
          rcases ih with hnone | ⟨x, tail, n, htail, hsome, hfirst⟩
          · refine .inl fun x tail htail => ?_
            rcases tail_mark_iff.mp htail with ⟨rfl, rfl⟩ | ⟨y, rfl, hlater⟩
            · exact hfault
            · exact hnone y tail hlater
          · refine .inr ⟨seg ++ lexeme ++ x, tail, n, .later htail, hsome, ?_⟩
            intro y tail' htail' hlt
            rcases tail_mark_iff.mp htail' with ⟨rfl, rfl⟩ | ⟨z, rfl, hlater⟩
            · exact hfault
            · refine hfirst z tail' hlater ?_
              simpa using hlt

/-- A segment at fault gives its error. -/
theorem readSegment_of_fault {seg : Text} (h : d.fieldFault? seg = some n) :
    d.readSegment p seg = .error { fault := .malformedField, position := p + n,
                                   character := some d.fieldDelimiter } := by
  rw [readSegment, h]

/-- **The first segment at fault stops the scan.** -/
theorem tokens_of_fault (hd : d.Sound) (hl : l.Valid d before) (hbefore : d.Outside before)
    (htail : Tail l x tail) (hfault : d.fieldFault? tail.first = some n)
    (hfirst : ∀ y tail', Tail l y tail' → y.length < x.length → d.fieldFault? tail'.first = none) :
    l.tokens d p = .error { fault := .malformedField, position := p + Text.byteSize x + n,
                            character := some d.fieldDelimiter } := by
  induction htail generalizing before p with
  | all l =>
      cases l with
      | last seg =>
          have hread : d.readSegment p seg = _ := readSegment_of_fault hfault
          rw [tokens_last, hread]
          rfl
      | mark seg kind lexeme more => exact tokens_mark_of_error (readSegment_of_fault hfault)
  | @later seg lexeme x kind more tail htail ih =>
      cases hl with
      | mark _ hmark hmore =>
          have hout : d.Outside (before ++ seg ++ lexeme) :=
            (outside_append_of_notMem (hd.quote_notMem_of_markAt hmark)).mpr hmark.outside
          have hpos := List.length_pos_iff.mpr (hd.ne_nil_of_markAt hmark)
          have hseg : d.fieldFault? seg = none :=
            hfirst [] _ (.all _) (by simp only [List.length_append, List.length_nil]; omega)
          have hread : ∃ term, d.readSegment p seg = .ok term :=
            ⟨_, readSegment_eq_ok_iff.mpr ⟨hseg, hbefore.append_iff.mp hmark.outside, rfl⟩⟩
          obtain ⟨term, hread⟩ := hread
          have hrest := ih (p := p + Text.byteSize (seg ++ lexeme)) hmore hout hfault
            fun y tail' htail' hlt => hfirst (seg ++ lexeme ++ y) tail' (.later htail')
              (by simpa using hlt)
          rw [tokens_mark_of_ok hread, hrest]
          simp [Except.map, Nat.add_assoc]

/-- **Without a segment at fault**, only a quoted part that does not end stops the scan. -/
theorem tokens_of_no_fault (hd : d.Sound) (hl : l.Valid d before) (hbefore : d.Outside before)
    (hnone : ∀ x tail, Tail l x tail → d.fieldFault? tail.first = none) :
    if d.Outside l.text then ∃ ts, l.tokens d p = .ok ts
    else l.tokens d p = .error { fault := .unclosedQuote,
                                 position := p + Text.byteSize (d.beforeLastQuote l.text),
                                 character := some d.quote } := by
  induction hl generalizing p with
  | @last before seg hplain =>
      have hseg : d.fieldFault? seg = none := hnone [] _ (.all _)
      rw [text, tokens_last, readSegment, hseg]
      split
      · exact ⟨_, rfl⟩
      · rfl
  | @mark before seg lexeme kind more hplain hmark hmore ih =>
      have hseg : d.fieldFault? seg = none := hnone [] _ (.all _)
      have hout : d.Outside seg := hbefore.append_iff.mp hmark.outside
      have hlexeme : d.Outside (seg ++ lexeme) :=
        (outside_append_of_notMem (hd.quote_notMem_of_markAt hmark)).mpr hout
      have hread : d.readSegment p seg = .ok _ := readSegment_eq_ok_iff.mpr ⟨hseg, hout, rfl⟩
      have hnext : d.Outside (before ++ seg ++ lexeme) :=
        (outside_append_of_notMem (hd.quote_notMem_of_markAt hmark)).mpr hmark.outside
      have hrest := ih (p := p + Text.byteSize (seg ++ lexeme)) hnext fun x tail htail =>
        hnone (seg ++ lexeme ++ x) tail (.later htail)
      rw [text, ← List.append_assoc, tokens_mark_of_ok hread]
      by_cases hmoreOut : d.Outside more.text
      · rw [if_pos hmoreOut] at hrest
        rw [if_pos (hlexeme.append_iff.mpr hmoreOut)]
        obtain ⟨rest, hrest⟩ := hrest
        exact ⟨_, by rw [hrest]; rfl⟩
      · rw [if_neg hmoreOut] at hrest
        rw [if_neg (mt hlexeme.append_iff.mp hmoreOut)]
        rw [hrest, beforeLastQuote_append_of_mem (quote_mem_of_not_outside hmoreOut)]
        simp [Except.map, Nat.add_assoc]

end Layout

/-! ### Queries, by their segments -/

variable {q seg : Text} {t : Term} {ts : List Token}

/-- No segment of a query is at fault, or there is a first one. -/
theorem fault_cases (hd : d.Sound) (q : Text) :
    (∀ before seg, d.SegmentOf q before seg → d.fieldFault? seg = none) ∨
      ∃ before seg n, d.SegmentOf q before seg ∧ d.fieldFault? seg = some n ∧
        ∀ before' seg', d.SegmentOf q before' seg' → before'.length < before.length →
          d.fieldFault? seg' = none := by
  obtain ⟨l, hl, rfl, -⟩ := exists_layout hd q
  simp only [hl.segmentOf_iff hd]
  rcases l.fault_cases d with hnone | ⟨x, tail, n, htail, hsome, hfirst⟩
  · left
    rintro before _ ⟨tail, htail, rfl⟩
    exact hnone before tail htail
  · refine .inr ⟨x, tail.first, n, ⟨tail, htail, rfl⟩, hsome, ?_⟩
    rintro y _ ⟨tail', htail', rfl⟩ hlt
    exact hfirst y tail' htail' hlt

/-- The terms are those of the segments that are not blank. -/
theorem mem_tokenize_term_iff (hd : d.Sound) (h : d.tokenize q = .ok ts) :
    ⟨.term t, p⟩ ∈ ts ↔ ∃ before seg, d.SegmentOf q before seg ∧
      firstPlace? (Text.byteSize before) seg = some p ∧ t = d.termOf seg := by
  obtain ⟨l, hl, rfl, hscan⟩ := exists_layout hd q
  rw [tokenize_eq_ok_iff, hscan] at h
  simp only [hl.segmentOf_iff hd]
  rw [Layout.mem_tokens_term_iff hd hl h]
  constructor
  · rintro ⟨x, tail, htail, hplace, rfl⟩
    exact ⟨x, tail.first, ⟨tail, htail, rfl⟩, by simpa using hplace, rfl⟩
  · rintro ⟨x, _, ⟨tail, htail, rfl⟩, hplace, rfl⟩
    exact ⟨x, tail, htail, by simpa using hplace, rfl⟩

/-- **The first segment at fault stops the scan**, at its delimiter. -/
theorem tokenize_of_fault (hd : d.Sound) (hseg : d.SegmentOf q before seg)
    (hfault : d.fieldFault? seg = some n)
    (hfirst : ∀ before' seg', d.SegmentOf q before' seg' → before'.length < before.length →
      d.fieldFault? seg' = none) :
    d.tokenize q = .error { fault := .malformedField, position := Text.byteSize before + n,
                            character := some d.fieldDelimiter, query := q } := by
  obtain ⟨l, hl, rfl, hscan⟩ := exists_layout hd q
  obtain ⟨tail, htail, rfl⟩ := (hl.segmentOf_iff hd).mp hseg
  have htokens := Layout.tokens_of_fault (p := 0) hd hl outside_nil htail hfault
    fun y tail' htail' => hfirst y tail'.first ((hl.segmentOf_iff hd).mpr ⟨tail', htail', rfl⟩)
  rw [tokenize, hscan, htokens]
  simp [inQuery, Except.mapError, ParseError.inQuery]

/-- **Without a segment at fault, an odd number of quotes stops the scan**, at the last one. -/
theorem tokenize_of_no_fault (hd : d.Sound)
    (hnone : ∀ before seg, d.SegmentOf q before seg → d.fieldFault? seg = none) :
    if d.Outside q then ∃ ts, d.tokenize q = .ok ts
    else d.tokenize q
      = .error { fault := .unclosedQuote, position := Text.byteSize (d.beforeLastQuote q),
                 character := some d.quote, query := q } := by
  obtain ⟨l, hl, rfl, hscan⟩ := exists_layout hd q
  have htokens := Layout.tokens_of_no_fault (p := 0) hd hl outside_nil fun x tail htail =>
    hnone x tail.first ((hl.segmentOf_iff hd).mpr ⟨tail, htail, rfl⟩)
  split
  · next hout =>
    rw [if_pos hout] at htokens
    exact htokens.imp fun ts hts => tokenize_eq_ok_iff.mpr (hscan.trans hts)
  · next hout =>
    rw [if_neg hout] at htokens
    rw [tokenize, hscan, htokens]
    simp [inQuery, Except.mapError, ParseError.inQuery]

/-- **A query can be cut into tokens** exactly if no segment is at fault and its quotes are even
in number. -/
theorem tokenize_isOk_iff (hd : d.Sound) : (∃ ts, d.tokenize q = .ok ts) ↔
    d.Outside q ∧ ∀ before seg, d.SegmentOf q before seg → d.fieldFault? seg = none := by
  constructor
  · rintro ⟨ts, h⟩
    rcases fault_cases hd q with hnone | ⟨before, seg, n, hseg, hsome, hfirst⟩
    · have hcases := tokenize_of_no_fault hd hnone
      by_cases hout : d.Outside q
      · exact ⟨hout, hnone⟩
      · rw [if_neg hout, h] at hcases
        cases hcases
    · rw [tokenize_of_fault hd hseg hsome hfirst] at h
      cases h
  · rintro ⟨hout, hnone⟩
    have hcases := tokenize_of_no_fault hd hnone
    rwa [if_pos hout] at hcases

/-- **The error of a query** is that of the first segment at fault, or, without one, that of the
last quote. -/
theorem tokenize_eq_error_iff (hd : d.Sound) {e : ParseError} : d.tokenize q = .error e ↔
    (∃ before seg n, d.SegmentOf q before seg ∧ d.fieldFault? seg = some n ∧
      (∀ before' seg', d.SegmentOf q before' seg' → before'.length < before.length →
        d.fieldFault? seg' = none) ∧
      e = { fault := .malformedField, position := Text.byteSize before + n,
            character := some d.fieldDelimiter, query := q }) ∨
    ((∀ before seg, d.SegmentOf q before seg → d.fieldFault? seg = none) ∧ ¬ d.Outside q ∧
      e = { fault := .unclosedQuote, position := Text.byteSize (d.beforeLastQuote q),
            character := some d.quote, query := q }) := by
  constructor
  · intro h
    rcases fault_cases hd q with hnone | ⟨before, seg, n, hseg, hsome, hfirst⟩
    · have hcases := tokenize_of_no_fault hd hnone
      by_cases hout : d.Outside q
      · rw [if_pos hout, h] at hcases
        obtain ⟨ts, hts⟩ := hcases
        cases hts
      · rw [if_neg hout, h] at hcases
        exact .inr ⟨hnone, hout, Except.error.inj hcases⟩
    · rw [tokenize_of_fault hd hseg hsome hfirst] at h
      exact .inl ⟨before, seg, n, hseg, hsome, hfirst, (Except.error.inj h).symm⟩
  · rintro (⟨before, seg, n, hseg, hsome, hfirst, rfl⟩ | ⟨hnone, hout, rfl⟩)
    · exact tokenize_of_fault hd hseg hsome hfirst
    · have hcases := tokenize_of_no_fault hd hnone
      rwa [if_neg hout] at hcases

/-- **The terms and the faults of a query.** The terms of a query that can be cut into tokens
are those of its segments, one for each that is not blank. A query can be cut exactly if its
quotes are even in number and each field in it has a well-formed specification and a value.
Otherwise the error is at the delimiter of the first segment whose field is at fault, or, if
there is none, at the last quote. -/
theorem tokenize_operands (hd : d.check = .ok ()) (q : Text) :
    (∀ ts, d.tokenize q = .ok ts → ∀ t p, ⟨.term t, p⟩ ∈ ts ↔ ∃ before seg,
      d.SegmentOf q before seg ∧ firstPlace? (Text.byteSize before) seg = some p ∧
      t = d.termOf seg) ∧
    ((∃ ts, d.tokenize q = .ok ts) ↔ d.Outside q ∧ ∀ before seg, d.SegmentOf q before seg →
      ∀ spec value, d.splitField? seg = some (spec, value) →
        (∃ f, FieldSpec.ofText? d spec.trim = some f) ∧ value.all Text.isBlank = false) ∧
    ∀ e, d.tokenize q = .error e ↔
      (∃ before seg n, d.SegmentOf q before seg ∧ d.fieldFault? seg = some n ∧
        (∀ before' seg', d.SegmentOf q before' seg' → before'.length < before.length →
          d.fieldFault? seg' = none) ∧
        e = { fault := .malformedField, position := Text.byteSize before + n,
              character := some d.fieldDelimiter, query := q }) ∨
      ((∀ before seg, d.SegmentOf q before seg → d.fieldFault? seg = none) ∧ ¬ d.Outside q ∧
        e = { fault := .unclosedQuote, position := Text.byteSize (d.beforeLastQuote q),
              character := some d.quote, query := q }) := by
  have hd := check_eq_ok_iff.mp hd
  simp only [← fieldFault?_eq_none_iff]
  exact ⟨fun ts h t p => mem_tokenize_term_iff hd h, tokenize_isOk_iff hd,
    fun e => tokenize_eq_error_iff hd⟩

/-- In `f:x AND [:y` the second segment is the first one at fault. -/
theorem tokenize_malformed_second :
    Dialect.standard.check = .ok () ∧
    Dialect.standard.tokenize "f:x AND [:y".toList
      = .error { fault := .malformedField, position := 9, character := some ':',
                 query := "f:x AND [:y".toList } ∧
    ¬ (Dialect.standard.Outside "f:x AND [:y".toList ∧
      ∀ before seg, Dialect.standard.SegmentOf "f:x AND [:y".toList before seg →
        ∀ spec value, Dialect.standard.splitField? seg = some (spec, value) →
          (∃ f, FieldSpec.ofText? Dialect.standard spec.trim = some f) ∧
            value.all Text.isBlank = false) := by
  have herror : Dialect.standard.tokenize "f:x AND [:y".toList
      = .error { fault := .malformedField, position := 9, character := some ':',
                 query := "f:x AND [:y".toList } := by
    decide +kernel
  refine ⟨rfl, herror, mt (tokenize_operands rfl _).2.1.mpr ?_⟩
  rintro ⟨ts, hts⟩
  rw [herror] at hts
  cases hts

end BoolQuery
