import BoolQuery.Proofs.Token.Layout
import BoolQuery.Proofs.Token.Operand

/-!
# The Scanner Follows the Layout

The scanner finds the tokens of a query without looking at its layout. While it goes through a
segment, its state says where it is, what it keeps of the segment, and whether a word begins:
this is the invariant `Scanner.Tracks`. A turn at a character that begins no mark keeps it, a
turn at a mark ends the segment, and so the scan of a query gives the tokens of its layout.

## Main definitions

* `Scanner.Tracks`: the invariant.
* `Scanner.Tracks.Turn`: what a turn inside a segment may lead to.

## Main results

* `Scanner.Tracks.step_plain`, `Scanner.Tracks.step_mark`: one turn.
* `Scanner.Tracks.run_plain`, `Scanner.Tracks.run_layout`: the whole run.
* `scan_text`, `exists_layout`: the scan of a query gives the tokens of its layout.
-/

namespace BoolQuery

open Dialect

namespace Scanner

variable {d : Dialect} {before seg more after rest lexeme : Text} {kind : TokenKind}
  {s s' : Scanner} {c : Char} {l : Layout}

/-- The scanner is in the segment that begins behind `before`, of which it has read `seg`, and
in front of `rest`. -/
structure Tracks (d : Dialect) (before seg rest : Text) (s : Scanner) : Prop where
  /-- It knows its place. -/
  offset : s.offset = Text.byteSize before + Text.byteSize seg
  /-- It keeps what it has read. -/
  reads : s.operand.Reads d (Text.byteSize before) seg
  /-- The segment begins outside quotes. -/
  begins : d.Outside before
  /-- Between two turns the scanner is outside quotes. -/
  outside : d.Outside seg
  /-- It knows whether a word begins here, unless no keyword stands here anyway. -/
  word : (s.atWordStart = true ↔ d.WordStart (before ++ seg)) ∨ d.keywordAt? rest = none

/-! ### One turn -/

/-- A run is a turn and the run from there. -/
theorem run_cons (s : Scanner) (d : Dialect) (c : Char) (rest : Text) :
    s.run d (c :: rest) = s.step d c rest >>= fun r => r.1.run d r.2 := by
  rw [run]
  split
  · next hstep => rw [hstep]; rfl
  · next hstep => rw [hstep]; rfl

/-- After a turn that succeeds, the run goes on from there. -/
theorem run_cons_of_ok (h : s.step d c rest = .ok (s', more)) :
    s.run d (c :: rest) = s'.run d more := by
  rw [run_cons, h]
  rfl

/-- A turn that fails is the failure of the run. -/
theorem run_cons_of_error {e : ParseError} (h : s.step d c rest = .error e) :
    s.run d (c :: rest) = .error e := by
  rw [run_cons, h]
  rfl

/-- A turn at a quote passes over the quoted part, if it ends. -/
theorem step_quoted (s : Scanner) {content : Text} (hcontent : d.quote ∉ content) (rest : Text) :
    s.step d d.quote (content ++ d.quote :: rest) = .ok ({ s with
      offset := s.offset + d.quote.utf8Size + Text.byteSize content + d.quote.utf8Size
      atWordStart := false
      operand := s.operand.pushQuoted s.offset content }, rest) := by
  have hne := bne_quote_of_notMem hcontent
  rw [step, if_pos rfl, passQuoted, List.takeWhile_append_of_pos hne,
    List.dropWhile_append_of_pos hne]
  simp

namespace Tracks

/-- The place of the scanner is outside quotes. -/
theorem outside_place (h : s.Tracks d before seg rest) : d.Outside (before ++ seg) :=
  h.begins.append_iff.mpr h.outside

/-- The scanner finds the keyword that stands here as a word. -/
theorem keyword_eq (h : s.Tracks d before seg rest) :
    (if s.atWordStart then d.keywordAt? rest else none) = none ↔
      (d.WordStart (before ++ seg) → d.keywordAt? rest = none) := by
  rcases h.word with hword | hnone
  · simp only [← hword]
    split <;> simp_all
  · simp [hnone]

/-- A turn at a quote passes over the quoted part. -/
theorem step_quote (hd : d.Sound) {content : Text} (hcontent : d.quote ∉ content)
    (h : s.Tracks d before seg (d.quote :: (content ++ d.quote :: rest))) :
    ∃ s', s.step d d.quote (content ++ d.quote :: rest) = .ok (s', rest) ∧
      s'.Tracks d before (seg ++ d.quote :: (content ++ [d.quote])) rest ∧ s'.found = s.found := by
  have hseg : seg ++ d.quote :: (content ++ [d.quote])
      = seg ++ [d.quote] ++ content ++ [d.quote] := by simp
  refine ⟨_, step_quoted s hcontent rest, ⟨?_, ?_, h.begins, ?_, .inl ?_⟩, rfl⟩
  · simp only [h.offset, Text.byteSize_append, Text.byteSize_cons, Text.byteSize_nil]
    omega
  · rw [h.offset]
    exact h.reads.pushQuoted hd hcontent
  · rw [hseg, outside_append_quote, outside_append_of_notMem hcontent, outside_append_quote]
    simpa using h.outside
  · rw [hseg, ← List.append_assoc, wordStart_append_singleton]
    simp [Unquoted]

/-- A turn at a quote that is not closed fails. -/
theorem step_unclosed (h : s.Tracks d before seg (d.quote :: rest)) (hrest : d.quote ∉ rest) :
    s.step d d.quote rest = .error { fault := .unclosedQuote,
                                     position := Text.byteSize before + Text.byteSize seg,
                                     character := some d.quote } := by
  have hdrop : rest.dropWhile (· != d.quote) = [] := by
    exact List.dropWhile_eq_nil_iff.mpr (bne_quote_of_notMem hrest)
  rw [step, if_pos rfl, passQuoted, hdrop, h.offset]

/-- A turn at a character that is not a quote and begins no mark: the character is a field
delimiter, or belongs to the operand. -/
theorem step_bare (hd : d.Sound) (h : s.Tracks d before seg (c :: rest)) (hc : c ≠ d.quote)
    (hmark : d.NoMark (before ++ seg) (c :: rest)) :
    s.step d c rest =
      if c = d.fieldDelimiter && s.operand.acceptsField then
        (s.operand.startField d s.offset).map fun operand =>
          ({ s with offset := s.offset + c.utf8Size, atWordStart := false, operand }, rest)
      else
        .ok ({ s with
          offset := s.offset + c.utf8Size
          atWordStart := Text.isBlank c
          operand := s.operand.push s.offset c }, rest) := by
  obtain ⟨hgroup, hkey⟩ := hd.noMark_cons_iff.mp hmark h.outside_place
  rw [step, if_neg hc, hgroup, h.keyword_eq.mpr hkey]
  rfl

/-- What a turn in front of the rest `more` of a segment may lead to: some part of it is read,
or the turn fails as the segment says. -/
inductive Turn (d : Dialect) (before seg more after : Text) (s : Scanner) :
    Except ParseError (Scanner × Text) → Prop
  | reads {s' : Scanner} (part rest : Text) : more = part ++ rest → part ≠ [] →
      s'.Tracks d before (seg ++ part) (rest ++ after) → s'.found = s.found →
      Turn d before seg more after s (.ok (s', rest ++ after))
  | fails {e : ParseError} : d.readSegment (Text.byteSize before) (seg ++ more) = .error e →
      Turn d before seg more after s (.error e)

/-- A turn at a quote reads the quoted part. If it does not end, no mark follows, and the
segment has a quote that is not closed. -/
theorem turn_quote (hd : d.Sound) (h : s.Tracks d before seg (d.quote :: (more ++ after)))
    (hend : d.Outside (seg ++ d.quote :: more) ∨ after = []) :
    Turn d before seg (d.quote :: more) after s (s.step d d.quote (more ++ after)) := by
  by_cases hclosed : d.quote ∈ more
  · obtain ⟨content, rest, rfl, hcontent⟩ := List.eq_append_cons_of_mem hclosed
    have htext : content ++ d.quote :: rest ++ after = content ++ d.quote :: (rest ++ after) := by
      simp
    rw [htext] at h ⊢
    obtain ⟨s', hstep, htracks, hfound⟩ := h.step_quote hd hcontent
    rw [hstep]
    exact .reads (d.quote :: (content ++ [d.quote])) rest (by simp) (by simp) htracks hfound
  · have hopen : ¬ d.Outside (seg ++ d.quote :: more) := by
      rw [List.append_cons, outside_append_of_notMem hclosed, outside_append_quote]
      exact not_not.mpr h.outside
    obtain rfl : after = [] := hend.resolve_left hopen
    rw [List.append_nil] at h ⊢
    rw [h.step_unclosed hclosed]
    refine .fails ?_
    rw [readSegment, h.reads.fieldFault?_append_quote hd, if_neg hopen,
      beforeLastQuote_append hclosed]

/-- A turn at a delimiter where a field may end reads it, if the specification is well
formed. -/
theorem turn_fieldDelimiter (hd : d.Sound)
    (h : s.Tracks d before seg (d.fieldDelimiter :: (more ++ after)))
    (hmark : d.NoMark (before ++ seg) (d.fieldDelimiter :: (more ++ after)))
    (haccept : s.operand.acceptsField = true) :
    Turn d before seg (d.fieldDelimiter :: more) after s
      (s.step d d.fieldDelimiter (more ++ after)) := by
  have hstep := h.step_bare hd hd.fieldDelimiter_ne_quote hmark
  rw [if_pos (by simp [haccept]), h.offset] at hstep
  have hstart := h.reads.startField hd haccept
  rw [hstep]
  cases hspec : FieldSpec.ofText? d seg.trim with
  | none =>
      rw [hspec] at hstart
      rw [hstart]
      obtain ⟨hnone, hquote⟩ := h.reads.acceptsField_iff.mp haccept
      have hdelim := fieldDelimiter_notMem_of_splitField?_eq_none hnone hquote
      exact .fails (readSegment_of_malformed _
        (splitField?_eq_some_iff.mpr ⟨rfl, hdelim, hquote⟩) hspec)
  | some f =>
      rw [hspec] at hstart
      obtain ⟨o', ho', hreads⟩ := hstart
      rw [ho']
      have hquote : d.quote ∉ [d.fieldDelimiter] := by simp [hd.fieldDelimiter_ne_quote.symm]
      refine .reads [d.fieldDelimiter] more rfl (by simp)
        ⟨?_, hreads, h.begins, (outside_append_of_notMem hquote).mpr h.outside, .inl ?_⟩ rfl
      · simp only [Text.byteSize_append, Text.byteSize_cons, Text.byteSize_nil]
        omega
      · rw [← List.append_assoc, wordStart_append_singleton]
        simp [hd.isBlank_fieldDelimiter, hd.isGrouping_fieldDelimiter]

/-- A turn at any other character reads it. -/
theorem turn_push (hd : d.Sound) (h : s.Tracks d before seg (c :: (more ++ after)))
    (hc : c ≠ d.quote) (hmark : d.NoMark (before ++ seg) (c :: (more ++ after)))
    (hfield : ¬ (c = d.fieldDelimiter ∧ s.operand.acceptsField = true)) :
    Turn d before seg (c :: more) after s (s.step d c (more ++ after)) := by
  have hquote : d.quote ∉ [c] := by simpa using Ne.symm hc
  have hgroup := (hd.noMark_cons_iff.mp hmark h.outside_place).1
  rw [h.step_bare hd hc hmark, if_neg (by simpa using hfield), h.offset]
  refine .reads [c] more rfl (by simp) ⟨?_, h.reads.push hd hc hfield, h.begins,
    (outside_append_of_notMem hquote).mpr h.outside, .inl ?_⟩ rfl
  · simp only [Text.byteSize_append, Text.byteSize_cons, Text.byteSize_nil]
    omega
  · rw [← List.append_assoc, wordStart_append_singleton]
    simp [Unquoted, hc, h.outside_place, hgroup]

/-- **A turn inside a segment** reads some more of it, or fails as the segment says. -/
theorem step_plain (hd : d.Sound) (h : s.Tracks d before seg (c :: (more ++ after)))
    (hplain : d.Plain (before ++ seg) (c :: more) after)
    (hend : d.Outside (seg ++ c :: more) ∨ after = []) :
    Turn d before seg (c :: more) after s (s.step d c (more ++ after)) := by
  have hmark : d.NoMark (before ++ seg) (c :: (more ++ after)) := (plain_cons_iff.mp hplain).1
  by_cases hc : c = d.quote
  · subst hc
    exact h.turn_quote hd hend
  · by_cases hfield : c = d.fieldDelimiter ∧ s.operand.acceptsField = true
    · obtain ⟨rfl, haccept⟩ := hfield
      exact h.turn_fieldDelimiter hd hmark haccept
    · exact h.turn_push hd hc hmark hfield

/-! ### Whole runs -/

/-- **A run through a segment** ends in front of the next mark with the segment read, or fails as
the segment says. -/
theorem run_plain (hd : d.Sound) (h : s.Tracks d before seg (more ++ after))
    (hplain : d.Plain (before ++ seg) more after) (hend : d.Outside (seg ++ more) ∨ after = []) :
    (∃ s' : Scanner, s.run d (more ++ after) = s'.run d after ∧
      s'.Tracks d before (seg ++ more) after ∧ s'.found = s.found) ∨
    ∃ e, s.run d (more ++ after) = .error e ∧
      d.readSegment (Text.byteSize before) (seg ++ more) = .error e := by
  induction hn : more.length using Nat.strong_induction_on generalizing s seg more with
  | _ n ih =>
    subst hn
    cases more with
    | nil => exact .inl ⟨s, rfl, by simpa using h, rfl⟩
    | cons c more =>
        have hturn := h.step_plain hd hplain hend
        cases hstep : s.step d c (more ++ after) with
        | error e =>
            rw [hstep] at hturn
            cases hturn with
            | fails hread => exact .inr ⟨e, run_cons_of_error hstep, hread⟩
        | ok next =>
            rw [hstep] at hturn
            cases hturn with
            | @reads s' part rest heq hne htracks hfound =>
                rw [heq] at hplain hend ⊢
                have hlt : rest.length < (c :: more).length := by
                  have := List.length_pos_iff.mpr hne
                  rw [heq, List.length_append]
                  omega
                have hplain' := (plain_append_iff.mp hplain).2
                rw [List.append_assoc] at hplain'
                have hrun : s.run d (part ++ rest ++ after) = s'.run d (rest ++ after) := by
                  rw [← heq]
                  exact run_cons_of_ok hstep
                rw [hrun, ← hfound, ← List.append_assoc]
                rw [← List.append_assoc] at hend
                exact ih rest.length hlt htracks hplain' hend rfl

/-- A turn at a mark passes over it. -/
theorem step_mark (hd : d.Sound) (h : s.Tracks d before seg (c :: rest))
    (hmark : d.MarkAt (before ++ seg) kind lexeme after) (heq : c :: rest = lexeme ++ after) :
    s.step d c rest = (s.passToken d kind (Text.byteSize lexeme)).map (·, after) := by
  cases hmark with
  | openGroup =>
      obtain ⟨rfl, rfl⟩ : c = d.group.opening ∧ rest = after := by simpa using heq
      rw [step, if_neg hd.opening_ne_quote, if_pos isGrouping_opening, if_pos rfl]
      simp
  | closeGroup =>
      obtain ⟨rfl, rfl⟩ : c = d.group.closing ∧ rest = after := by simpa using heq
      rw [step, if_neg hd.closing_ne_quote, if_pos isGrouping_closing,
        if_neg hd.opening_ne_closing.symm]
      simp
  | operator op _ hstart hend =>
      have hop : d.keywordAt? (c :: rest) = some (op, after) :=
        hd.keywordAt?_eq_some_iff_append.mpr ⟨heq, hend⟩
      have hword : s.atWordStart = true := by
        rcases h.word with hword | hnone
        · exact hword.mpr hstart
        · rw [hop] at hnone
          cases hnone
      obtain ⟨k, ks, hkw, hk⟩ := hd.exists_keyword_eq_cons op
      obtain ⟨-, hgroup, hquote⟩ := endsWord_eq_false_iff.mp hk
      obtain rfl : c = k := by
        rw [hkw] at heq
        exact (List.cons.inj heq).1
      rw [step, if_neg hquote, hgroup, if_pos hword, hop]
      rfl

/-- At the end of a segment, what is kept gives the token of the segment. -/
theorem finishOperand_eq (hd : d.Sound) (h : s.Tracks d before seg rest) :
    s.finishOperand d = (d.readSegment (Text.byteSize before) seg).map fun term =>
      { s with operand := {}, found := term.toList ++ s.found } := by
  rw [finishOperand, h.reads.token? hd h.outside]
  cases d.readSegment (Text.byteSize before) seg <;> rfl

/-- **A run over a mark** ends the segment in front of it, whose token or error this gives, and
begins the next one. -/
theorem run_mark (hd : d.Sound) (h : s.Tracks d before seg (lexeme ++ after))
    (hmark : d.MarkAt (before ++ seg) kind lexeme after) :
    match d.readSegment (Text.byteSize before) seg with
    | .error e => s.run d (lexeme ++ after) = .error e
    | .ok term => ∃ s' : Scanner, s.run d (lexeme ++ after) = s'.run d after ∧
        s'.Tracks d (before ++ seg ++ lexeme) [] after ∧
        s'.found
          = ⟨kind, Text.byteSize before + Text.byteSize seg⟩ :: (term.toList ++ s.found) := by
  obtain ⟨c, rest, hlexeme⟩ := List.exists_cons_of_ne_nil (hd.ne_nil_of_markAt hmark)
  have hcons : lexeme ++ after = c :: (rest ++ after) := by rw [hlexeme]; rfl
  rw [hcons] at h ⊢
  have hstep := h.step_mark hd hmark hcons.symm
  rw [passToken, h.finishOperand_eq hd, h.offset] at hstep
  cases hread : d.readSegment (Text.byteSize before) seg with
  | error e =>
      rw [hread] at hstep
      exact run_cons_of_error hstep
  | ok term =>
      rw [hread] at hstep
      refine ⟨_, run_cons_of_ok hstep, ⟨?_, Operand.reads_nil, ?_, outside_nil, ?_⟩, rfl⟩
      · simp [Nat.add_assoc]
      · exact (outside_append_of_notMem (hd.quote_notMem_of_markAt hmark)).mpr hmark.outside
      · rw [List.append_nil]
        exact (hd.wordStart_of_markAt hmark).imp_left (iff_of_true rfl)

/-- **A run through a layout** finds its tokens, or fails as the layout says. -/
theorem run_layout (hd : d.Sound) (hl : l.Valid d before) (h : s.Tracks d before [] l.text) :
    (s.run d l.text).map Scanner.found
      = (l.tokens d (Text.byteSize before)).map fun ts => ts.reverse ++ s.found := by
  induction hl generalizing s with
  | @last before seg hplain =>
      rw [Layout.text, ← List.append_nil seg] at h
      rcases h.run_plain hd (by simpa using hplain) (.inr rfl) with
        ⟨s', hrun, htracks, hfound⟩ | ⟨e, hrun, hread⟩
      · rw [List.append_nil] at hrun
        rw [Layout.text, hrun, run, htracks.finishOperand_eq hd, Layout.tokens_last,
          List.nil_append, ← hfound]
        cases d.readSegment (Text.byteSize before) seg with
        | error e => rfl
        | ok term => cases term <;> rfl
      · simp only [List.append_nil, List.nil_append] at hrun hread
        rw [Layout.text, hrun, Layout.tokens_last, hread]
        rfl
  | @mark before seg lexeme kind more hplain hmark hmore ih =>
      rw [Layout.text] at h
      have hseg : d.Outside seg := h.begins.append_iff.mp hmark.outside
      rcases h.run_plain hd (by simpa using hplain) (.inl hseg) with
        ⟨s', hrun, htracks, hfound⟩ | ⟨e, hrun, hread⟩
      · have hover := htracks.run_mark hd hmark
        rw [List.nil_append] at hover
        rw [Layout.text, hrun]
        cases hread : d.readSegment (Text.byteSize before) seg with
        | error e =>
            rw [hread] at hover
            rw [hover, Layout.tokens_mark_of_error hread]
            rfl
        | ok term =>
            rw [hread] at hover
            obtain ⟨s'', hrun', htracks', hfound'⟩ := hover
            rw [hrun', ih htracks', hfound', hfound, Layout.tokens_mark_of_ok hread,
              List.append_assoc, Text.byteSize_append]
            cases more.tokens d (Text.byteSize before + Text.byteSize (seg ++ lexeme)) with
            | error e => rfl
            | ok ts => cases term <;> simp [Except.map]
      · rw [List.nil_append] at hread
        rw [Layout.text, hrun, Layout.tokens_mark_of_error hread]
        rfl

end Tracks

/-- The scan begins in the first segment. -/
theorem tracks_start (d : Dialect) (rest : Text) : Tracks d [] [] rest {} where
  offset := rfl
  reads := Operand.reads_nil
  begins := outside_nil
  outside := outside_nil
  word := .inl (by simp [WordStart])

end Scanner

/-- **The scan of a query gives the tokens of its layout.** -/
theorem scan_text {d : Dialect} (hd : d.Sound) {l : Layout} (hl : l.Valid d []) :
    scan d l.text = l.tokens d 0 := by
  have hrun := (Scanner.tracks_start d l.text).run_layout hd hl
  rw [Text.byteSize_nil] at hrun
  rw [scan]
  cases hscan : Scanner.run {} d l.text with
  | error e =>
      rw [hscan] at hrun
      cases htokens : l.tokens d 0 with
      | error e' =>
          rw [htokens] at hrun
          exact congrArg _ (Except.error.inj hrun)
      | ok ts => rw [htokens] at hrun; cases hrun
  | ok s =>
      rw [hscan] at hrun
      cases htokens : l.tokens d 0 with
      | error e => rw [htokens] at hrun; cases hrun
      | ok ts =>
          rw [htokens] at hrun
          have hfound : s.found = ts.reverse ++ [] := Except.ok.inj hrun
          simp [hfound]

/-- Every query has a layout, and its scan gives the tokens of the layout. -/
theorem exists_layout {d : Dialect} (hd : d.Sound) (q : Text) :
    ∃ l : Layout, l.Valid d [] ∧ l.text = q ∧ scan d q = l.tokens d 0 := by
  obtain ⟨l, hl, rfl⟩ := Layout.exists_valid hd [] q
  exact ⟨l, hl, rfl, scan_text hd hl⟩

end BoolQuery
