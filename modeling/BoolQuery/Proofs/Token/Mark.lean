import BoolQuery.Proofs.Dialect.Sound
import BoolQuery.Token.Basic

/-!
# Marks

The tokens of a query that are not terms can be told from the text around them. A **mark** is
a grouping character outside quotes, or a keyword outside quotes that stands as a whole word:
at the start of the query or behind white space or a grouping character, and in front of the
end, white space, a grouping character or a quote. This module states the rule for a place of
the query, given as the text before it, and shows that marks do not overlap.

## Main definitions

* `Dialect.Outside`, `Dialect.Unquoted`: places and characters outside quotes.
* `Dialect.WordStart`: places where a word begins.
* `Dialect.MarkAt`: the rule.
* `Dialect.Plain`: a stretch of the query in which no mark begins.
* `Dialect.Segment`, `Dialect.SegmentOf`: a stretch of the query between two marks.

## Main results

* `Dialect.Sound.noMark_cons_iff`: when no mark begins at a character.
* `Dialect.Sound.markAt_unique`: at most one mark begins at a place.
* `Dialect.Sound.noMark_inside`: no mark begins inside another one.
-/

namespace BoolQuery

namespace Dialect

/-! ### Places -/

/-- The place behind `before` is outside quotes: the number of quotes before it is even. -/
def Outside (d : Dialect) (before : Text) : Prop :=
  before.count d.quote % 2 = 0

instance (d : Dialect) (before : Text) : Decidable (d.Outside before) :=
  inferInstanceAs (Decidable (_ = _))

/-- The character `c` behind `before` is not quoted: it is not a quote, and stands outside
quotes. -/
def Unquoted (d : Dialect) (before : Text) (c : Char) : Prop :=
  c ≠ d.quote ∧ d.Outside before

/-- A word may begin behind `before`: at the start of the query, and behind white space or a
grouping character that is not quoted. -/
def WordStart (d : Dialect) (before : Text) : Prop :=
  before = [] ∨ ∃ front c, before = front ++ [c] ∧ d.Unquoted front c ∧
    (Text.isBlank c = true ∨ d.isGrouping c = true)

/-- The query `before ++ lexeme ++ after` has a mark of the given kind at `lexeme`. -/
inductive MarkAt (d : Dialect) (before : Text) : (kind : TokenKind) → (lexeme after : Text) → Prop
  | openGroup (after : Text) :
      d.Outside before → MarkAt d before .openGroup [d.group.opening] after
  | closeGroup (after : Text) :
      d.Outside before → MarkAt d before .closeGroup [d.group.closing] after
  | operator {after : Text} (op : Operator) :
      d.Outside before → d.WordStart before → after.head?.all d.endsWord = true →
      MarkAt d before (.operator op) (d.keyword op) after

/-- No mark begins behind `before`, in front of `rest`. -/
def NoMark (d : Dialect) (before rest : Text) : Prop :=
  ∀ kind lexeme after, rest = lexeme ++ after → ¬ d.MarkAt before kind lexeme after

/-- No mark begins inside the stretch `seg` of the query `before ++ seg ++ after`. -/
def Plain (d : Dialect) (before seg after : Text) : Prop :=
  ∀ x c y, seg = x ++ c :: y → d.NoMark (before ++ x) (c :: (y ++ after))

/-- The stretch `seg` of the query `before ++ seg ++ after` is all that stands between two marks
next to each other; the two ends of the query count as marks. -/
structure Segment (d : Dialect) (before seg after : Text) : Prop where
  /-- It begins where a mark ends. -/
  starts : before = [] ∨ ∃ front kind lexeme, before = front ++ lexeme ∧
    d.MarkAt front kind lexeme (seg ++ after)
  /-- No mark begins inside. -/
  plain : d.Plain before seg after
  /-- It ends where a mark begins. -/
  ends : after = [] ∨ ∃ kind lexeme rest, after = lexeme ++ rest ∧
    d.MarkAt (before ++ seg) kind lexeme rest

/-- The query `q` has the segment `seg` behind `before`. -/
def SegmentOf (d : Dialect) (q before seg : Text) : Prop :=
  ∃ after, q = before ++ (seg ++ after) ∧ d.Segment before seg after

variable {d : Dialect} {before rest lexeme after seg : Text} {kind : TokenKind}

/-- Marks are outside quotes. -/
theorem MarkAt.outside (h : d.MarkAt before kind lexeme after) : d.Outside before := by
  cases h <;> assumption

/-- Marks are not terms. -/
theorem MarkAt.kind_ne_term (h : d.MarkAt before kind lexeme after) (t : Term) :
    kind ≠ .term t := by
  cases h <;> simp

theorem markAt_openGroup_iff :
    d.MarkAt before .openGroup lexeme after ↔ lexeme = [d.group.opening] ∧ d.Outside before := by
  constructor
  · rintro ⟨⟩
    exact ⟨rfl, ‹_›⟩
  · rintro ⟨rfl, hout⟩
    exact .openGroup after hout

theorem markAt_closeGroup_iff :
    d.MarkAt before .closeGroup lexeme after ↔ lexeme = [d.group.closing] ∧ d.Outside before := by
  constructor
  · rintro ⟨⟩
    exact ⟨rfl, ‹_›⟩
  · rintro ⟨rfl, hout⟩
    exact .closeGroup after hout

theorem markAt_operator_iff {op : Operator} :
    d.MarkAt before (.operator op) lexeme after ↔ lexeme = d.keyword op ∧ d.Outside before ∧
      d.WordStart before ∧ after.head?.all d.endsWord = true := by
  constructor
  · rintro ⟨⟩
    exact ⟨rfl, ‹_›, ‹_›, ‹_›⟩
  · rintro ⟨rfl, hout, hstart, hend⟩
    exact .operator op hout hstart hend

/-! ### Parity of quotes -/

@[simp] theorem outside_nil : d.Outside [] := by
  simp [Outside]

/-- Behind a place outside quotes, whether another place is outside depends only on the text
between the two. -/
theorem Outside.append_iff (h : d.Outside before) : d.Outside (before ++ seg) ↔ d.Outside seg := by
  simp only [Outside, List.count_append] at h ⊢
  omega

/-- A text without quotes leaves it open or closed as it was. -/
theorem outside_append_of_notMem (h : d.quote ∉ seg) :
    d.Outside (before ++ seg) ↔ d.Outside before := by
  simp [Outside, List.count_append, List.count_eq_zero.mpr h]

/-- A text without quotes ends outside quotes. -/
theorem outside_of_notMem (h : d.quote ∉ seg) : d.Outside seg := by
  simp [Outside, List.count_eq_zero.mpr h]

/-- A text with an odd number of quotes has a quote. -/
theorem quote_mem_of_not_outside (h : ¬ d.Outside seg) : d.quote ∈ seg := by
  by_contra hquote
  exact h (outside_of_notMem hquote)

/-- A quote turns the inside out. -/
theorem outside_append_quote : d.Outside (before ++ [d.quote]) ↔ ¬ d.Outside before := by
  simp only [Outside, List.count_append, List.count_singleton_self]
  omega

/-- Whether a word may begin somewhere depends on the character before. -/
theorem wordStart_append_singleton {c : Char} :
    d.WordStart (before ++ [c]) ↔
      d.Unquoted before c ∧ (Text.isBlank c = true ∨ d.isGrouping c = true) := by
  constructor
  · rintro (hnil | ⟨front, c', heq, hc⟩)
    · simp at hnil
    · obtain ⟨rfl, hlast⟩ := List.append_inj' heq rfl
      obtain rfl : c = c' := by simpa using hlast
      exact hc
  · intro hc
    exact .inr ⟨before, c, rfl, hc⟩

/-- Inside a stretch that begins outside quotes, words begin in the same places whatever comes
before the stretch. -/
theorem wordStart_append_iff {before' : Text} (h : d.Outside before) (h' : d.Outside before')
    (hne : seg ≠ []) : d.WordStart (before ++ seg) ↔ d.WordStart (before' ++ seg) := by
  have hlast := List.dropLast_append_getLast hne
  rw [← hlast, ← List.append_assoc, ← List.append_assoc, wordStart_append_singleton,
    wordStart_append_singleton, Unquoted, Unquoted, h.append_iff, h'.append_iff]

/-- Behind a character that ends no word, no word begins. -/
theorem not_wordStart_append (hne : seg ≠ []) (h : ∀ c ∈ seg, d.endsWord c = false) :
    ¬ d.WordStart (before ++ seg) := by
  obtain ⟨hblank, hgroup, -⟩ := endsWord_eq_false_iff.mp (h _ (List.getLast_mem hne))
  rw [← List.dropLast_append_getLast hne, ← List.append_assoc, wordStart_append_singleton]
  simp [hblank, hgroup]

/-! ### The rule for the next character -/

namespace Sound

/-- The text of a mark has no quote in it. -/
theorem quote_notMem_of_markAt (hd : d.Sound) (h : d.MarkAt before kind lexeme after) :
    d.quote ∉ lexeme := by
  cases h with
  | openGroup => simpa using hd.opening_ne_quote.symm
  | closeGroup => simpa using hd.closing_ne_quote.symm
  | operator op => exact hd.quote_notMem_keyword op

/-- The text of a mark is not empty. -/
theorem ne_nil_of_markAt (hd : d.Sound) (h : d.MarkAt before kind lexeme after) :
    lexeme ≠ [] := by
  cases h with
  | openGroup => simp
  | closeGroup => simp
  | operator op => exact hd.keyword_ne_nil op

/-- A mark takes up some bytes. -/
theorem byteSize_pos_of_markAt (hd : d.Sound) (h : d.MarkAt before kind lexeme after) :
    0 < Text.byteSize lexeme := by
  obtain ⟨c, rest, rfl⟩ := List.exists_cons_of_ne_nil (hd.ne_nil_of_markAt h)
  rw [Text.byteSize_cons]
  exact Nat.add_pos_left c.utf8Size_pos _

/-- **No mark begins at a character** exactly when it is quoted, or it does not group and no
keyword begins there as a word. -/
theorem noMark_cons_iff (hd : d.Sound) {c : Char} :
    d.NoMark before (c :: rest) ↔
      (d.Outside before → d.isGrouping c = false ∧
        (d.WordStart before → d.keywordAt? (c :: rest) = none)) := by
  constructor
  · intro h hout
    constructor
    · by_contra hgroup
      simp only [isGrouping, Bool.not_eq_false, Bool.or_eq_true, decide_eq_true_eq] at hgroup
      rcases hgroup with rfl | rfl
      · exact h _ [d.group.opening] rest rfl (.openGroup rest hout)
      · exact h _ [d.group.closing] rest rfl (.closeGroup rest hout)
    · intro hstart
      by_contra hkey
      obtain ⟨⟨op, after⟩, hop⟩ := Option.ne_none_iff_exists'.mp hkey
      obtain ⟨heq, hend⟩ := hd.keywordAt?_eq_some_iff_append.mp hop
      exact h _ _ _ heq (.operator op hout hstart hend)
  · intro h kind lexeme after heq hmark
    cases hmark with
    | openGroup _ hout =>
        obtain ⟨rfl, -⟩ : c = d.group.opening ∧ rest = after := by simpa using heq
        simpa [isGrouping] using (h hout).1
    | closeGroup _ hout =>
        obtain ⟨rfl, -⟩ : c = d.group.closing ∧ rest = after := by simpa using heq
        simpa [isGrouping] using (h hout).1
    | operator op hout hstart hend =>
        have hop := hd.keywordAt?_eq_some_iff_append.mpr ⟨heq, hend⟩
        rw [(h hout).2 hstart] at hop
        cases hop

/-- A quote begins no mark. -/
theorem noMark_quote (hd : d.Sound) : d.NoMark before (d.quote :: rest) := by
  have hquote : d.endsWord d.quote = true := by simp [endsWord]
  exact hd.noMark_cons_iff.mpr fun _ =>
    ⟨hd.isGrouping_quote, fun _ => hd.keywordAt?_eq_none hquote rest⟩

/-- A field delimiter begins no mark. -/
theorem noMark_fieldDelimiter (hd : d.Sound) : d.NoMark before (d.fieldDelimiter :: rest) := by
  refine hd.noMark_cons_iff.mpr fun _ => ⟨hd.isGrouping_fieldDelimiter, fun _ => ?_⟩
  by_contra hkey
  obtain ⟨⟨op, after⟩, hop⟩ := Option.ne_none_iff_exists'.mp hkey
  obtain ⟨more, hnil, hmore, -⟩ := hd.keywordAt?_fieldDelimiter (t := []) hop
  exact hmore (List.append_eq_nil_iff.mp hnil.symm).2

/-- Behind a mark a word begins, or no keyword can stand there. -/
theorem wordStart_of_markAt (hd : d.Sound) (h : d.MarkAt before kind lexeme after) :
    d.WordStart (before ++ lexeme) ∨ d.keywordAt? after = none := by
  cases h with
  | openGroup _ hout =>
      exact .inl (wordStart_append_singleton.mpr
        ⟨⟨hd.opening_ne_quote, hout⟩, .inr isGrouping_opening⟩)
  | closeGroup _ hout =>
      exact .inl (wordStart_append_singleton.mpr
        ⟨⟨hd.closing_ne_quote, hout⟩, .inr isGrouping_closing⟩)
  | operator op _ _ hend =>
      refine .inr ?_
      cases after with
      | nil =>
          by_contra hkey
          obtain ⟨⟨op', rest⟩, hop⟩ := Option.ne_none_iff_exists'.mp hkey
          simpa using length_lt_of_keywordAt? hop
      | cons c after => exact hd.keywordAt?_eq_none (by simpa using hend) after

/-! ### Marks do not overlap -/

/-- **At most one mark begins at a place.** -/
theorem markAt_unique (hd : d.Sound) {kind' : TokenKind} {lexeme' after' : Text}
    (h : d.MarkAt before kind lexeme after) (h' : d.MarkAt before kind' lexeme' after')
    (heq : lexeme ++ after = lexeme' ++ after') :
    kind = kind' ∧ lexeme = lexeme' ∧ after = after' := by
  -- a keyword does not begin with a grouping character
  have hkeyword : ∀ (op : Operator) (c : Char) (x y : Text), d.isGrouping c = true →
      c :: x ≠ d.keyword op ++ y := by
    intro op c x y hc heq
    cases hkw : d.keyword op with
    | nil => exact hd.keyword_ne_nil op hkw
    | cons k ks =>
        rw [hkw] at heq
        obtain ⟨rfl, -⟩ := List.cons.inj heq
        have := hd.endsWord_keyword op (c := c) (by simp [hkw])
        simp [endsWord, hc] at this
  cases h with
  | openGroup _ _ =>
      cases h' with
      | openGroup => simpa using heq
      | closeGroup => exact absurd (List.cons.inj heq).1 hd.opening_ne_closing
      | operator op => exact absurd heq (hkeyword op _ _ _ (by simp))
  | closeGroup _ _ =>
      cases h' with
      | openGroup => exact absurd (List.cons.inj heq).1.symm hd.opening_ne_closing
      | closeGroup => simpa using heq
      | operator op => exact absurd heq (hkeyword op _ _ _ (by simp))
  | operator op _ _ hend =>
      cases h' with
      | openGroup => exact absurd heq.symm (hkeyword op _ _ _ (by simp))
      | closeGroup => exact absurd heq.symm (hkeyword op _ _ _ (by simp))
      | operator op' _ _ hend' =>
          have hop : d.keywordAt? (d.keyword op ++ after) = some (op, after) :=
            hd.keywordAt?_eq_some_iff_append.mpr ⟨rfl, hend⟩
          have hop' := hd.keywordAt?_eq_some_iff_append.mpr ⟨heq, hend'⟩
          rw [hop, Option.some.injEq, Prod.mk.injEq] at hop'
          obtain ⟨rfl, rfl⟩ := hop'
          exact ⟨rfl, rfl, rfl⟩

/-- **No mark begins inside another one**: grouping characters are single, and inside a keyword
no word begins. -/
theorem noMark_inside (hd : d.Sound) {x y : Text} (h : d.MarkAt before kind (x ++ y) after)
    (hx : x ≠ []) (hy : y ≠ []) : d.NoMark (before ++ x) (y ++ after) := by
  obtain ⟨c, y, rfl⟩ := List.exists_cons_of_ne_nil hy
  generalize hlexeme : x ++ c :: y = lexeme at h
  cases h with
  | openGroup | closeGroup =>
      obtain ⟨k, x, rfl⟩ := List.exists_cons_of_ne_nil hx
      simp at hlexeme
  | operator op =>
      have hmem : ∀ c' ∈ x ++ c :: y, d.endsWord c' = false := fun c' hc' =>
        hd.endsWord_keyword op (hlexeme ▸ hc')
      refine hd.noMark_cons_iff.mpr fun _ => ⟨?_, fun hstart => absurd hstart ?_⟩
      · exact (endsWord_eq_false_iff.mp (hmem c (by simp))).2.1
      · exact not_wordStart_append hx fun c' hc' => hmem c' (List.mem_append_left _ hc')

end Sound

/-! ### Where segments begin -/

/-- A segment begins outside quotes. -/
theorem Segment.outside (hd : d.Sound) (h : d.Segment before seg after) : d.Outside before := by
  rcases h.starts with rfl | ⟨front, kind, lexeme, rfl, hmark⟩
  · exact outside_nil
  · exact (outside_append_of_notMem (hd.quote_notMem_of_markAt hmark)).mpr hmark.outside

/-- Behind the white space at the start of a segment a word begins, or no keyword stands. -/
theorem Segment.wordStart (hd : d.Sound) {lead : Text}
    (h : d.Segment before (lead ++ seg) after) (hlead : lead.all Text.isBlank = true) :
    d.WordStart (before ++ lead) ∨ d.keywordAt? (seg ++ after) = none := by
  by_cases hne : lead = []
  · subst hne
    rw [List.append_nil]
    rcases h.starts with rfl | ⟨front, kind, lexeme, rfl, hmark⟩
    · exact .inl (.inl rfl)
    · exact hd.wordStart_of_markAt (by simpa using hmark)
  · left
    have hblank := List.all_eq_true.mp hlead _ (List.getLast_mem hne)
    have hquote := hd.quote_notMem_of_blank hlead
    have hlast := List.dropLast_append_getLast hne
    rw [← hlast, ← List.append_assoc, wordStart_append_singleton]
    refine ⟨⟨fun heq => hquote (heq ▸ List.getLast_mem hne), ?_⟩, .inl hblank⟩
    have hfront : d.quote ∉ lead.dropLast := fun hmem => hquote (List.dropLast_subset _ hmem)
    exact (outside_append_of_notMem hfront).mpr (h.outside hd)

/-! ### Plain stretches -/

theorem plain_nil : d.Plain before [] after := by
  intro x c y h
  simp at h

/-- A stretch is plain when no mark begins at its first character and the rest is plain. -/
theorem plain_cons_iff {c : Char} :
    d.Plain before (c :: seg) after ↔
      d.NoMark before (c :: (seg ++ after)) ∧ d.Plain (before ++ [c]) seg after := by
  constructor
  · intro h
    refine ⟨by simpa using h [] c seg rfl, fun x c' y hseg => ?_⟩
    simpa using h (c :: x) c' y (by rw [hseg]; rfl)
  · rintro ⟨hfirst, hrest⟩ x c' y hseg
    cases x with
    | nil =>
        obtain ⟨rfl, rfl⟩ := List.cons.inj hseg
        simpa using hfirst
    | cons k x =>
        obtain ⟨rfl, rfl⟩ := List.cons.inj hseg
        simpa using hrest x c' y rfl

/-- A stretch is plain when both its parts are. -/
theorem plain_append_iff {seg' : Text} :
    d.Plain before (seg ++ seg') after ↔
      d.Plain before seg (seg' ++ after) ∧ d.Plain (before ++ seg) seg' after := by
  induction seg generalizing before with
  | nil => simp [plain_nil]
  | cons c seg ih => simp [plain_cons_iff, ih, and_assoc]

/-- No mark begins inside a plain stretch. -/
theorem Plain.not_markAt {x y : Text} (h : d.Plain before (x ++ y) after) (hy : y ≠ [])
    (heq : y ++ after = lexeme ++ rest) : ¬ d.MarkAt (before ++ x) kind lexeme rest := by
  obtain ⟨c, y, rfl⟩ := List.exists_cons_of_ne_nil hy
  exact h x c y rfl kind lexeme rest heq

/-- No mark begins in white space. -/
theorem plain_of_blank (hd : d.Sound) (h : seg.all Text.isBlank = true) :
    d.Plain before seg after := by
  rintro x c y rfl
  have hc : Text.isBlank c = true := List.all_eq_true.mp h c (by simp)
  refine hd.noMark_cons_iff.mpr fun _ => ⟨?_, fun _ => ?_⟩
  · by_contra hgroup
    rw [Bool.not_eq_false] at hgroup
    rw [hd.isBlank_of_isGrouping hgroup] at hc
    cases hc
  · exact hd.keywordAt?_eq_none (by simp [endsWord, hc]) _

/-- Inside quotes no mark begins. -/
theorem plain_of_not_outside (hd : d.Sound) (h : ¬ d.Outside before) (hquote : d.quote ∉ seg) :
    d.Plain before seg after := by
  rintro x c y rfl
  have hx : d.quote ∉ x := fun hmem => hquote (List.mem_append_left _ hmem)
  exact hd.noMark_cons_iff.mpr fun hout => absurd ((outside_append_of_notMem hx).mp hout) h

/-- A plain stretch outside quotes has no grouping character. -/
theorem Plain.isGrouping (hd : d.Sound) (h : d.Plain before seg after) (hout : d.Outside before)
    (hquote : d.quote ∉ seg) : ∀ c ∈ seg, d.isGrouping c = false := by
  intro c hc
  obtain ⟨x, y, rfl⟩ := List.append_of_mem hc
  have hx : d.quote ∉ x := fun hmem => hquote (List.mem_append_left _ hmem)
  have hplace : d.Outside (before ++ x) := (outside_append_of_notMem hx).mpr hout
  exact (hd.noMark_cons_iff.mp (h x c y rfl) hplace).1

/-! ### Field specifications in another place -/

/-- A keyword in a field specification of a segment that would be a word if the specification
stood elsewhere is a mark of the query: what comes before the specification in the segment lets
a word begin, too. -/
theorem Segment.markAt_operator (hd : d.Sound) {lead x more : Text} {op : Operator}
    (h : d.Segment before (lead ++ (x ++ (d.keyword op ++ more))) after)
    (hlead : lead.all Text.isBlank = true) (hquote : d.quote ∉ x) {before' : Text}
    (hout' : d.Outside before') (hstart : d.WordStart (before' ++ x))
    (hend : (more ++ after).head?.all d.endsWord = true) :
    d.MarkAt (before ++ lead ++ x) (.operator op) (d.keyword op) (more ++ after) := by
  have hout : d.Outside (before ++ lead) :=
    (outside_append_of_notMem (hd.quote_notMem_of_blank hlead)).mpr (h.outside hd)
  have hword : d.WordStart (before ++ lead ++ x) := by
    by_cases hnil : x = []
    · subst hnil
      have hop : d.keywordAt? (d.keyword op ++ (more ++ after)) = some (op, more ++ after) :=
        hd.keywordAt?_eq_some_iff_append.mpr ⟨rfl, hend⟩
      rcases h.wordStart hd hlead with hword | hnone
      · simpa using hword
      · rw [List.nil_append, List.append_assoc, hop] at hnone
        cases hnone
    · exact (wordStart_append_iff hout' hout hnil).mp hstart
  exact .operator op ((outside_append_of_notMem hquote).mpr hout) hword hend

/-- **No mark begins in a field specification of a segment, wherever it is written** with its
delimiter behind it, because a keyword in it would be a mark inside the segment. -/
theorem Segment.plain_fieldDelimiter (hd : d.Sound) {lead spec : Text}
    (h : d.Segment before (lead ++ (spec ++ rest)) after) (hlead : lead.all Text.isBlank = true)
    (hquote : d.quote ∉ spec) {before' after' : Text} (hout' : d.Outside before') :
    d.Plain before' (spec ++ [d.fieldDelimiter]) after' := by
  have hout : d.Outside (before ++ lead) :=
    (outside_append_of_notMem (hd.quote_notMem_of_blank hlead)).mpr (h.outside hd)
  have hplain := (plain_append_iff.mp h.plain).2
  refine plain_append_iff.mpr ⟨?_, plain_cons_iff.mpr ⟨hd.noMark_fieldDelimiter, plain_nil⟩⟩
  rintro x c y rfl
  have hx : d.quote ∉ x := fun hmem => hquote (List.mem_append_left _ hmem)
  refine hd.noMark_cons_iff.mpr fun _ => ⟨?_, fun hstart => ?_⟩
  · exact (plain_append_iff.mp hplain).1.isGrouping hd hout hquote c (by simp)
  · by_contra hkey
    obtain ⟨⟨op, r⟩, hop⟩ := Option.ne_none_iff_exists'.mp hkey
    obtain ⟨more, hmore, hne, hend⟩ := hd.keywordAt?_fieldDelimiter (t := c :: y) hop
    have hend' : (more ++ rest ++ after).head?.all d.endsWord = true := by
      obtain ⟨k, more, rfl⟩ := List.exists_cons_of_ne_nil hne
      simpa using hend
    rw [hmore, List.append_assoc, List.append_assoc] at h hplain
    have hmark := h.markAt_operator hd hlead hx hout' hstart hend'
    exact absurd hmark (hplain.not_markAt (by simp [hne]) (by simp))

end Dialect

end BoolQuery
