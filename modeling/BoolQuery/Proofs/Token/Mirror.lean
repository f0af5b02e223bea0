import BoolQuery.Proofs.Token.Indexed
import BoolQuery.Proofs.Token.Scan

/-!
# Scanning by Byte Offsets Is Scanning

The scanner by byte offsets finds the tokens that the scanner finds. Where the one takes a turn,
the other goes through the characters of that turn one by one, and the states on both sides stay
the same up to how they are kept: this is the relation `IndexedScanner.Mirrors`. As every state
reached by offsets is consistent, the cuts in between never fail, and the scan ends as the query
says: in its tokens or in its first fault.

## Main definitions

* `Operand.indexed`: an operand as one text.
* `IndexedScanner.Mirrors`: two states that are the same.
* `IndexedScanner.Follows`: a turn on one side and the characters of it on the other.
* `Scanner.Reached`: the states of a scan between two turns.

## Main results

* `IndexedScanner.Mirrors.follows`: one turn.
* `IndexedScanner.Mirrors.goOn_eq`, `Scanner.Reached.mirrored`: the rest of the query, and the way
  to every state.
* `indexedScan_safe`: the scan by offsets is the scan, and no state on the way is inconsistent.
-/

namespace BoolQuery

open Dialect

variable {d : Dialect} {q read rest more content : Text} {c : Char} {position : Nat}

/-! ### Operands -/

/-- The operand with its text in one piece. -/
def Operand.indexed (o : Operand) : IndexedOperand where
  text := o.text
  start := o.start
  quoted := o.quoted
  quotedEnd := Text.byteSize o.kept
  field := o.field

namespace Operand

variable {o : Operand}

/-- A character is added on both sides. -/
theorem indexed_push (o : Operand) (position : Nat) (c : Char) :
    (o.push position c).indexed = o.indexed.push position c := by
  have hcond : (Text.isBlank c && o.indexed.text.isEmpty && !o.indexed.quoted) =
      (Text.isBlank c && o.loose.isEmpty && o.kept.isEmpty && !o.quoted) := by
    rw [Bool.eq_iff_iff]
    simp [indexed, text, and_assoc, and_left_comm]
  rw [push, IndexedOperand.push, hcond]
  split
  · rfl
  · simp [indexed, text]

/-- A quoted part is added on both sides. -/
theorem indexed_pushQuoted (o : Operand) (position : Nat) (content : Text) :
    (o.pushQuoted position content).indexed =
      ((o.indexed.openQuote position).append content).closeQuote := by
  have hsize : Text.byteSize (o.pushQuoted position content).kept =
      Text.byteSize (o.text ++ content) := by
    simp only [pushQuoted, text, Text.byteSize_append, Text.byteSize_reverse]
    omega
  simp only [indexed, IndexedOperand.closeQuote, IndexedOperand.append, IndexedOperand.openQuote,
    hsize]
  simp [pushQuoted, text]

/-- **The text that is cut off is the text that is left.** -/
theorem trimmed_indexed (o : Operand) : o.indexed.trimmed = .ok o.trimmed := by
  have htext : o.text = o.kept.reverse ++ o.loose.reverse := by simp [text]
  have htrimmed : o.trimmed = o.kept.reverse ++ Text.trimEnd o.loose.reverse := by
    simp [trimmed, Text.trimEnd]
  have hfront : o.trimmed <+: o.text := by
    rw [htext, htrimmed, List.prefix_append_right_inj]
    exact Text.trimEnd_prefix _
  have hsize : max (Text.byteSize o.text.trimEnd) (Text.byteSize o.kept) =
      Text.byteSize o.trimmed := by
    rw [htext, htrimmed, Text.trimEnd_append]
    split
    · next hblank =>
      have hle : Text.IsPlace o.kept.reverse (Text.byteSize (Text.trimEnd o.kept.reverse)) :=
        ⟨_, Text.trimEnd_prefix _, rfl⟩
      rw [Text.trimEnd_eq_nil_iff.mpr hblank, List.append_nil, Text.byteSize_reverse]
      exact Nat.max_eq_right (by simpa using hle.le)
    · rw [Text.byteSize_append, Text.byteSize_reverse]
      exact Nat.max_eq_left (Nat.le_add_right _ _)
  obtain ⟨blank, hblank⟩ := hfront
  rw [IndexedOperand.trimmed]
  simp only [indexed, hsize]
  rw [← hblank, Text.cut_append]
  rfl

/-- A field delimiter on both sides. -/
theorem startField_indexed (h : Text.byteSize o.kept = 0) (d : Dialect) (position : Nat) :
    o.indexed.startField d position =
      ((o.startField d position).map indexed).mapError .fault := by
  rw [IndexedOperand.startField, trimmed_indexed, startField]
  cases hspec : FieldSpec.ofText? d o.trimmed with
  | none => simp [hspec, bind, Except.bind, Except.map, Except.mapError]
  | some f => simp [hspec, bind, Except.bind, Except.map, Except.mapError, indexed, text, h]

/-- The end of the operand on both sides. -/
theorem token?_indexed (o : Operand) (d : Dialect) :
    o.indexed.token? d = (o.token? d).mapError .fault := by
  have hstart : o.indexed.start = o.start := rfl
  have hfield : o.indexed.field = o.field := rfl
  have hquoted : o.indexed.quoted = o.quoted := rfl
  rw [IndexedOperand.token?, trimmed_indexed, token?, hstart, hfield, hquoted]
  cases o.start with
  | none => rfl
  | some start =>
      cases o.field with
      | none => rfl
      | some field =>
          simp only [bind, Except.bind]
          split <;> rfl

end Operand

/-! ### States -/

/-- A mark ends the operand and begins another. -/
theorem Scanner.passToken_eq (s : Scanner) (d : Dialect) (kind : TokenKind) (size : Nat) :
    s.passToken d kind size = (s.operand.token? d).map fun token =>
      { s with
        offset := s.offset + size
        atWordStart := true
        operand := {}
        found := ⟨kind, s.offset⟩ :: (token.toList ++ s.found) } := by
  rw [passToken, finishOperand]
  cases s.operand.token? d <;> rfl

namespace IndexedScanner

variable {s : Scanner} {t t' : IndexedScanner}

/-- The states are the same between two turns. -/
structure Mirrors (t : IndexedScanner) (s : Scanner) : Prop where
  /-- They are at the same place. -/
  offset : t.offset = s.offset
  /-- A keyword may stand here for both. -/
  atWordStart : t.atWordStart = s.atWordStart
  /-- They have read the same operand. -/
  operand : t.operand = s.operand.indexed
  /-- They have found the same tokens. -/
  found : t.found = s.found
  /-- A turn is over outside quotes. -/
  quote : t.quote = none
  /-- A turn is over behind a keyword. -/
  keywordEnd : t.keywordEnd ≤ t.offset

/-- A turn from a state leads to `r`. By offsets this takes the characters of the turn, which
are a front of the text, or the scan ends with the same fault. -/
inductive Follows (d : Dialect) (q : Text) (t : IndexedScanner) (text : Text) :
    Except ParseError (Scanner × Text) → Prop
  | goes {t' : IndexedScanner} {s' : Scanner} (part rest : Text) : text = part ++ rest →
      part.foldlM (step d q) t = .ok t' → t'.Mirrors s' → Follows d q t text (.ok (s', rest))
  | fails {e : ParseError} : t.goOn d q text = .error (.fault e) → Follows d q t text (.error e)

/-- The scan goes on behind what has been read. -/
theorem goOn_append_of_ok (h : more.foldlM (step d q) t = .ok t') (rest : Text) :
    t.goOn d q (more ++ rest) = t'.goOn d q rest := by
  rw [goOn, foldlM_append_of_ok h]
  rfl

/-- A character that ends the scan ends it for all of the text. -/
theorem goOn_cons_of_error {stop : Stop} (h : step d q t c = .error stop) (rest : Text) :
    t.goOn d q (c :: rest) = .error stop := by
  rw [goOn, foldlM_cons_of_error h]
  rfl

/-- The text of a keyword is passed over. -/
theorem foldlM_keyword (h : t.offset + Text.byteSize more ≤ t.keywordEnd) :
    more.foldlM (step d q) t = .ok { t with offset := t.offset + Text.byteSize more } := by
  induction more generalizing t with
  | nil => rfl
  | cons c more ih =>
      have := c.utf8Size_pos
      rw [Text.byteSize_cons] at h
      have hstep : step d q t c = .ok (t.advance c) := by
        rw [step, if_pos (by omega)]
      rw [foldlM_cons_of_ok hstep, ih (by simp only [advance]; omega)]
      simp [advance, Nat.add_assoc]

/-- Inside quotes the text up to the next quote is added. -/
theorem foldlM_quoted (hcontent : d.quote ∉ content) (hquote : t.quote = some position)
    (hend : t.keywordEnd ≤ t.offset) : content.foldlM (step d q) t =
      .ok { t with
        offset := t.offset + Text.byteSize content
        operand := t.operand.append content } := by
  induction content generalizing t with
  | nil =>
      rw [IndexedOperand.append, List.append_nil]
      rfl
  | cons c content ih =>
      obtain ⟨hc, hcontent'⟩ : c ≠ d.quote ∧ d.quote ∉ content := by
        simpa [eq_comm] using hcontent
      have hstep : step d q t c = .ok ({ t with operand := t.operand.append [c] }.advance c) := by
        rw [step, if_neg (Nat.not_lt.mpr hend), hquote]
        simp only [readQuoted, if_neg hc, hquote]
      have hmore := ih (t := { t with operand := t.operand.append [c] }.advance c) hcontent' hquote
        (Nat.le_add_right_of_le hend)
      rw [foldlM_cons_of_ok hstep, hmore]
      simp [advance, IndexedOperand.append, Nat.add_assoc]

namespace Mirrors

/-- Between two turns a character does what is said of it there. -/
theorem step_eq (h : t.Mirrors s) (d : Dialect) (q : Text) (c : Char) :
    step d q t c = (t.turn d q c).map (·.advance c) := by
  rw [step, if_neg (Nat.not_lt.mpr h.keywordEnd), h.quote]

/-- The operand ends on both sides. -/
theorem token?_eq (h : t.Mirrors s) (d : Dialect) :
    t.operand.token? d = (s.operand.token? d).mapError .fault := by
  rw [h.operand, Operand.token?_indexed]

/-- An opening quote and text without quotes behind it. -/
theorem foldlM_opened (h : t.Mirrors s) (q : Text) (hcontent : d.quote ∉ content) :
    (d.quote :: content).foldlM (step d q) t = .ok { t with
      offset := t.offset + d.quote.utf8Size + Text.byteSize content
      operand := (t.operand.openQuote t.offset).append content
      quote := some t.offset } := by
  have hopen : step d q t d.quote =
      .ok ({ t with operand := t.operand.openQuote t.offset
                    quote := some t.offset }.advance d.quote) := by
    rw [h.step_eq, turn, if_pos rfl]
    rfl
  rw [foldlM_cons_of_ok hopen]
  exact foldlM_quoted hcontent rfl (Nat.le_add_right_of_le h.keywordEnd)

/-- A turn at a quote reads the quoted part on both sides, if it ends. -/
theorem follows_quote (h : t.Mirrors s) (q rest : Text) :
    Follows d q t (d.quote :: rest) (s.step d d.quote rest) := by
  by_cases hclosed : d.quote ∈ rest
  · obtain ⟨content, after, rfl, hcontent⟩ := List.eq_append_cons_of_mem hclosed
    have hend : t.keywordEnd ≤ t.offset + d.quote.utf8Size + Text.byteSize content :=
      Nat.le_add_right_of_le (Nat.le_add_right_of_le h.keywordEnd)
    have hpart : (d.quote :: content ++ [d.quote]).foldlM (step d q) t = .ok { t with
        offset := t.offset + d.quote.utf8Size + Text.byteSize content + d.quote.utf8Size
        atWordStart := false
        operand := ((t.operand.openQuote t.offset).append content).closeQuote } := by
      rw [foldlM_append_of_ok (h.foldlM_opened q hcontent), foldlM_singleton, step,
        if_neg (Nat.not_lt.mpr hend)]
      simp [readQuoted, advance, h.quote]
    rw [Scanner.step_quoted s hcontent]
    refine .goes (d.quote :: content ++ [d.quote]) after (by simp) hpart
      ⟨?_, rfl, ?_, h.found, h.quote, Nat.le_add_right_of_le hend⟩
    · rw [h.offset]
    · rw [h.operand, h.offset, Operand.indexed_pushQuoted]
  · have hdrop : rest.dropWhile (· != d.quote) = [] :=
      List.dropWhile_eq_nil_iff.mpr (bne_quote_of_notMem hclosed)
    rw [Scanner.step, if_pos rfl, Scanner.passQuoted, hdrop]
    refine .fails ?_
    rw [goOn, h.foldlM_opened q hclosed, ← h.offset]
    rfl

/-- A turn at a mark, which is passed over on both sides. -/
theorem follows_mark (h : t.Mirrors s) (kind : TokenKind) (tail after : Text) (k : Nat)
    (hs : s.step d c (tail ++ after) =
      (s.passToken d kind (Text.byteSize (c :: tail))).map (·, after))
    (ht : step d q t c =
      (t.passToken d kind).map fun t' => { t'.advance c with keywordEnd := k })
    (hk : k ≤ t.offset + Text.byteSize (c :: tail))
    (htail : tail = [] ∨ k = t.offset + Text.byteSize (c :: tail)) :
    Follows d q t (c :: (tail ++ after)) (s.step d c (tail ++ after)) := by
  have htoken := h.token?_eq d
  -- nothing is left to pass over, or the end of the keyword is the end of the mark
  have hpass : ∀ t' : IndexedScanner, t'.offset = t.offset + c.utf8Size → t'.keywordEnd = k →
      tail.foldlM (step d q) t' = .ok { t' with offset := t'.offset + Text.byteSize tail } := by
    intro t' hoffset hkeyword
    rcases htail with rfl | rfl
    · rfl
    · refine foldlM_keyword ?_
      rw [hoffset, hkeyword, Text.byteSize_cons, Nat.add_assoc]
  rw [hs, Scanner.passToken_eq]
  rw [passToken, finishOperand, htoken] at ht
  cases hvalue : s.operand.token? d with
  | error e =>
      rw [hvalue] at ht
      exact .fails (goOn_cons_of_error ht _)
  | ok token =>
      rw [hvalue] at ht
      refine .goes (c :: tail) after rfl ((foldlM_cons_of_ok ht tail).trans (hpass _ rfl rfl))
        ⟨?_, rfl, rfl, ?_, h.quote, ?_⟩
      · simp [advance, h.offset, Nat.add_assoc]
      · simp [advance, h.offset, h.found]
      · simpa [advance, Nat.add_assoc] using hk

/-- A turn at a keyword. -/
theorem follows_keyword (hd : d.Sound) (h : t.Mirrors s) (hquote : c ≠ d.quote)
    (hgroup : ¬ d.isGrouping c = true) {found : Operator × Text}
    (hs : (if s.atWordStart = true then d.keywordAt? (c :: rest) else none) = some found)
    (ht : t.keywordAt d q = .ok (some found)) :
    Follows d q t (c :: rest) (s.step d c rest) := by
  obtain ⟨op, after⟩ := found
  have hop : d.keywordAt? (c :: rest) = some (op, after) := by
    split at hs
    · exact hs
    · cases hs
  obtain ⟨k, tail, hkey, -⟩ := hd.exists_keyword_eq_cons op
  have heq := (hd.keywordAt?_eq_some_iff_append.mp hop).1
  rw [hkey, List.cons_append] at heq
  obtain ⟨rfl, rfl⟩ := List.cons.inj heq
  refine h.follows_mark (.operator op) tail after (t.offset + Text.byteSize (d.keyword op)) ?_ ?_
    (by rw [hkey]) (.inr (by rw [hkey]))
  · rw [Scanner.step, if_neg hquote, if_neg hgroup, hs, ← hkey]
  · rw [h.step_eq, turn, if_neg hquote, if_neg hgroup, ht]
    simp only [bind, Except.bind]
    cases t.passToken d (.operator op) <;> rfl

/-- A turn at a field delimiter that ends a specification. -/
theorem follows_field (h : t.Mirrors s) (ht : t.operand.Consistent d)
    (haccept : s.operand.acceptsField = true)
    (hturn : t.turn d q c = (t.operand.startField d t.offset).map fun operand =>
      { t with atWordStart := false, operand }) (rest : Text) :
    Follows d q t (c :: rest) ((s.operand.startField d s.offset).map fun operand =>
      ({ s with offset := s.offset + c.utf8Size, atWordStart := false, operand }, rest)) := by
  have hkept : Text.byteSize s.operand.kept = 0 := by
    have hunquoted := ht.unquoted
    rw [h.operand] at hunquoted
    refine (hunquoted ?_).1
    simp only [Operand.acceptsField, Bool.and_eq_true, Bool.not_eq_true'] at haccept
    exact haccept.2
  have hstep := h.step_eq d q c
  rw [hturn, h.operand, h.offset, Operand.startField_indexed hkept] at hstep
  cases hstart : s.operand.startField d s.offset with
  | error e =>
      rw [hstart] at hstep
      exact .fails (goOn_cons_of_error hstep rest)
  | ok operand =>
      rw [hstart] at hstep
      refine .goes [c] rest rfl (foldlM_singleton.trans hstep)
        ⟨rfl, rfl, rfl, h.found, h.quote, ?_⟩
      exact Nat.le_add_right_of_le (h.offset ▸ h.keywordEnd)

/-- A turn at a character of the operand. -/
theorem follows_push (h : t.Mirrors s)
    (hturn : t.turn d q c = .ok { t with
      atWordStart := Text.isBlank c, operand := t.operand.push t.offset c }) (rest : Text) :
    Follows d q t (c :: rest) (.ok ({ s with
      offset := s.offset + c.utf8Size
      atWordStart := Text.isBlank c
      operand := s.operand.push s.offset c }, rest)) := by
  have hstep := h.step_eq d q c
  rw [hturn] at hstep
  refine .goes [c] rest rfl (foldlM_singleton.trans hstep)
    ⟨?_, rfl, ?_, h.found, h.quote, Nat.le_add_right_of_le h.keywordEnd⟩
  · simp [advance, h.offset]
  · simp [advance, h.operand, h.offset, Operand.indexed_push]

/-- **A turn** on both sides. -/
theorem follows (hd : d.Sound) (h : t.Mirrors s) (ht : t.Consistent d read) (c : Char)
    (rest : Text) :
    Follows d (read ++ c :: rest) t (c :: rest) (s.step d c rest) := by
  by_cases hquote : c = d.quote
  · subst hquote
    exact h.follows_quote _ rest
  by_cases hgroup : d.isGrouping c = true
  · refine h.follows_mark (if c = d.group.opening then .openGroup else .closeGroup) [] rest
      t.keywordEnd ?_ ?_ (Nat.le_add_right_of_le h.keywordEnd) (.inl rfl)
    · rw [List.nil_append, Scanner.step, if_neg hquote, if_pos hgroup]
      simp
    · rw [h.step_eq, turn, if_neg hquote, if_pos hgroup, passToken, finishOperand]
      cases t.operand.token? d <;> rfl
  have hkeyword := ht.keywordAt_eq hd (c :: rest)
  rw [h.atWordStart] at hkeyword
  cases hfound : if s.atWordStart = true then d.keywordAt? (c :: rest) else none with
  | some found =>
      rw [hfound] at hkeyword
      exact h.follows_keyword hd hquote hgroup hfound hkeyword
  | none =>
      have hturn : t.turn d (read ++ c :: rest) c =
          if c = d.fieldDelimiter && t.operand.acceptsField then
            (t.operand.startField d t.offset).map fun operand =>
              { t with atWordStart := false, operand }
          else .ok { t with
            atWordStart := Text.isBlank c, operand := t.operand.push t.offset c } := by
        rw [turn, if_neg hquote, if_neg hgroup, hkeyword, hfound]
        rfl
      have haccepts : t.operand.acceptsField = s.operand.acceptsField := by
        rw [h.operand]
        rfl
      rw [Scanner.step, if_neg hquote, if_neg hgroup, hfound]
      rw [haccepts] at hturn
      simp only
      split
      · next hfield =>
        rw [if_pos hfield] at hturn
        simp only [Bool.and_eq_true] at hfield
        exact h.follows_field ht.operand hfield.2 hturn rest
      · next hfield =>
        rw [if_neg hfield] at hturn
        exact h.follows_push hturn rest

/-- **The rest of the query** gives the same tokens on both sides. -/
theorem goOn_eq (hd : d.Sound) (h : t.Mirrors s) (ht : t.Consistent d read) (more : Text) :
    (t.goOn d (read ++ more) more).map IndexedScanner.found =
      ((s.run d more).map Scanner.found).mapError .fault := by
  induction hlen : more.length using Nat.strong_induction_on generalizing s t read more with
  | _ n ih =>
    subst hlen
    cases more with
    | nil =>
        rw [Scanner.run, Scanner.finishOperand, goOn, List.foldlM_nil]
        simp only [bind, Except.bind, pure, Except.pure, finish, h.quote, finishOperand,
          h.token?_eq d]
        cases s.operand.token? d with
        | error e => rfl
        | ok token => simp [Except.map, Except.mapError, h.found]
    | cons c rest =>
        have hturn := h.follows hd ht c rest
        cases hstep : s.step d c rest with
        | error e =>
            rw [hstep] at hturn
            cases hturn with
            | fails hstop =>
                rw [hstop, Scanner.run_cons_of_error hstep]
                rfl
        | ok next =>
            rw [hstep] at hturn
            cases hturn with
            | @goes t' s' part after heq hpart hmirrors =>
                have hlt := Nat.lt_succ_of_le (Scanner.length_le_of_step hstep)
                rw [Scanner.run_cons_of_ok hstep]
                rw [heq] at hpart ⊢
                rw [goOn_append_of_ok hpart, ← List.append_assoc]
                exact ih _ hlt hmirrors (consistent_of_foldlM hd ht hpart) after rfl

end Mirrors

/-- The scans begin in the same state. -/
theorem mirrors_start : Mirrors {} {} where
  offset := rfl
  atWordStart := rfl
  operand := rfl
  found := rfl
  quote := rfl
  keywordEnd := Nat.le_refl 0

end IndexedScanner

/-- The states of a scan between two turns, each with the text that is left. -/
inductive Scanner.Reached (d : Dialect) (q : Text) : Scanner → Text → Prop
  | start : Reached d q {} q
  | turn {s s' : Scanner} {c : Char} {rest rest' : Text} : Reached d q s (c :: rest) →
      s.step d c rest = .ok (s', rest') → Reached d q s' rest'

/-- **Every state of a scan is reached by offsets**, when the text before it has been read. -/
theorem Scanner.Reached.mirrored (hd : d.Sound) {s : Scanner} (h : s.Reached d q rest) :
    ∃ read t, q = read ++ rest ∧
      read.foldlM (IndexedScanner.step d q) {} = .ok t ∧ t.Mirrors s := by
  induction h with
  | start => exact ⟨[], {}, rfl, rfl, IndexedScanner.mirrors_start⟩
  | @turn s s' c rest rest' _ hstep ih =>
      obtain ⟨read, t, rfl, hrun, hmirrors⟩ := ih
      have ht := IndexedScanner.consistent_of_foldlM hd (IndexedScanner.consistent_start d) hrun
      have hturn := hmirrors.follows hd ht c rest
      rw [hstep, List.nil_append] at hturn
      cases hturn with
      | @goes t' _ part _ heq hpart hmirrors' =>
          refine ⟨read ++ part, t', ?_, (foldlM_append_of_ok hrun part).trans hpart, hmirrors'⟩
          rw [heq, List.append_assoc]

/-- **The scan by offsets is the scan.** -/
theorem indexedScan_eq (hd : d.Sound) (q : Text) :
    indexedScan d q = (scan d q).mapError .fault := by
  have hrun := IndexedScanner.mirrors_start.goOn_eq hd (IndexedScanner.consistent_start d) q
  rw [List.nil_append] at hrun
  have hscan : indexedScan d q = ((IndexedScanner.goOn {} d q q).map IndexedScanner.found).map
      List.reverse := by
    rw [indexedScan]
    cases IndexedScanner.goOn {} d q q <;> rfl
  rw [hscan, hrun, scan]
  cases Scanner.run {} d q <;> rfl

/-- **Scanning by offsets is safe.** For a dialect that passes its check, the scan by offsets ends
in the tokens or the fault that the scan of the query has, and it comes through all the states of
this scan. In every state on the way the scanner is between two characters of the query, the operand
is consistent, and the cuts where it is trimmed and where a keyword is looked for do not fail. -/
theorem indexedScan_safe (hd : d.check = .ok ()) (q : Text) :
    indexedScan d q = (scan d q).mapError .fault ∧
    (∀ (s : Scanner) (rest : Text), s.Reached d q rest → ∃ read t, q = read ++ rest ∧
      read.foldlM (IndexedScanner.step d q) {} = .ok t ∧ t.Mirrors s) ∧
    ∀ (read rest : Text) (t : IndexedScanner), q = read ++ rest →
      read.foldlM (IndexedScanner.step d q) {} = .ok t →
      q.IsPlace t.offset ∧ t.operand.Consistent d ∧
        t.operand.quotedEnd ≤ Text.byteSize t.operand.text ∧
        (∃ value, t.operand.trimmed = .ok value) ∧ ∃ found, t.keywordAt d q = .ok found := by
  have hsound := check_eq_ok_iff.mp hd
  refine ⟨indexedScan_eq hsound q, fun s rest hs => hs.mirrored hsound, ?_⟩
  rintro read rest t rfl hrun
  have hs := IndexedScanner.consistent_of_foldlM hsound (IndexedScanner.consistent_start d) hrun
  rw [List.nil_append] at hs
  exact ⟨⟨read, List.prefix_append read rest, hs.offset.symm⟩, hs.operand, hs.operand.quotedEnd.le,
    hs.operand.exists_trimmed, _, hs.keywordAt_eq hsound rest⟩

/-- In `ä "é " AND x` the operand is cut behind the quoted space, which is in the middle of white
space, and no byte offset is the number of characters in front of it. -/
theorem indexedScan_safe_quoted_space :
    let q := "ä \"é \" AND x".toList
    let s : IndexedScanner :=
      { offset := 9
        operand := { text := "ä é  ".toList, start := some 0, quoted := true, quotedEnd := 6 } }
    Dialect.standard.check = .ok () ∧
    indexedScan Dialect.standard q = .ok [⟨.term { value := "ä é ".toList }, 0⟩,
      ⟨.operator .and, 9⟩, ⟨.term { value := ['x'] }, 13⟩] ∧
    "ä \"é \" ".toList.foldlM (IndexedScanner.step Dialect.standard q) {} = .ok s ∧
    Text.IsPlace q s.offset ∧ s.operand.Consistent Dialect.standard ∧
      s.operand.trimmed = .ok "ä é ".toList ∧
      ∃ found, s.keywordAt Dialect.standard q = .ok found := by
  intro q s
  have hcheck : Dialect.standard.check = .ok () := rfl
  have hscan : scan Dialect.standard q = .ok [⟨.term { value := "ä é ".toList }, 0⟩,
      ⟨.operator .and, 9⟩, ⟨.term { value := ['x'] }, 13⟩] := by decide +kernel
  have hstate : "ä \"é \" ".toList.foldlM (IndexedScanner.step Dialect.standard q) {} = .ok s := by
    decide +kernel
  obtain ⟨heq, -, hstates⟩ := indexedScan_safe hcheck q
  obtain ⟨hplace, hconsistent, -, -, hkeyword⟩ := hstates _ "AND x".toList s rfl hstate
  rw [hscan] at heq
  exact ⟨hcheck, heq, hstate, hplace, hconsistent, by decide +kernel, hkeyword⟩

end BoolQuery
