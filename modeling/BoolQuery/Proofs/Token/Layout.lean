import BoolQuery.Proofs.Token.Segment

/-!
# Layouts

Every query can be cut at its marks, and in one way only. The **layout** of a query is the list
of its segments with the marks between them; reading each segment by itself and putting the
marks in between gives the tokens that the query should have.

## Main definitions

* `Layout`: segments and the marks between them, with `Layout.text`.
* `Layout.prepend`: a layout with more text in front of its first segment.
* `Layout.Valid d before l`: the marks of `l` are the marks of its text behind `before`.
* `Layout.Tail l x tail`: the layout `l` goes on with `tail` behind the text `x`.
* `Layout.tokens`: the tokens of a layout, or the first error.

## Main results

* `Layout.exists_valid`: every query has a layout.
* `Layout.Valid.tail_of_markAt`: every mark of the query is one of its layout.
* `Layout.Valid.segmentOf_iff`: the segments of the query are those of its layout.
-/

namespace BoolQuery

open Dialect

/-- A query cut at its marks. -/
inductive Layout where
  /-- The last segment. -/
  | last (seg : Text)
  /-- A segment, the mark behind it, and what follows. -/
  | mark (seg : Text) (kind : TokenKind) (lexeme : Text) (more : Layout)

namespace Layout

/-- The query. -/
def text : Layout → Text
  | last seg => seg
  | mark seg _ lexeme more => seg ++ (lexeme ++ more.text)

/-- The first segment. -/
def first : Layout → Text
  | last seg => seg
  | mark seg _ _ _ => seg

/-- The layout with some more text at the start of its first segment. -/
def prepend (x : Text) : Layout → Layout
  | last seg => last (x ++ seg)
  | mark seg kind lexeme more => mark (x ++ seg) kind lexeme more

/-- The layout of a text behind `before` has all marks of the text, and no others. -/
inductive Valid (d : Dialect) : (before : Text) → (l : Layout) → Prop
  | last {before seg : Text} : d.Plain before seg [] → Valid d before (last seg)
  | mark {before seg lexeme : Text} {kind : TokenKind} {more : Layout} :
      d.Plain before seg (lexeme ++ more.text) →
      d.MarkAt (before ++ seg) kind lexeme more.text →
      Valid d (before ++ seg ++ lexeme) more → Valid d before (mark seg kind lexeme more)

/-- The layout goes on with `tail` behind the text `x`, which ends in a mark or is empty. -/
inductive Tail : (l : Layout) → (x : Text) → (tail : Layout) → Prop
  | all (l : Layout) : Tail l [] l
  | later {seg lexeme x : Text} {kind : TokenKind} {more tail : Layout} :
      Tail more x tail → Tail (mark seg kind lexeme more) (seg ++ lexeme ++ x) tail

/-- The tokens of a layout whose text begins at `position`: those of its segments and, between
them, those of its marks. The first segment with an error gives the error. -/
def tokens (d : Dialect) (position : Nat) : Layout → Except ParseError (List Token)
  | last seg => do
    let term ← d.readSegment position seg
    return term.toList
  | mark seg kind lexeme more => do
    let term ← d.readSegment position seg
    let rest ← more.tokens d (position + Text.byteSize (seg ++ lexeme))
    return term.toList ++ ⟨kind, position + Text.byteSize seg⟩ :: rest

variable {d : Dialect} {before after seg x y lexeme rest : Text} {kind : TokenKind}
  {l tail more : Layout}

@[simp] theorem text_prepend (l : Layout) (x : Text) : (l.prepend x).text = x ++ l.text := by
  cases l <;> simp [prepend, text]

@[simp] theorem prepend_nil (l : Layout) : l.prepend [] = l := by
  cases l <;> rfl

/-! ### Tokens, by the outcome of the first segment -/

theorem tokens_last (d : Dialect) (position : Nat) (seg : Text) :
    (last seg).tokens d position = (d.readSegment position seg).map Option.toList := by
  rw [tokens]
  cases d.readSegment position seg <;> rfl

/-- An error in the first segment is the error of the whole. -/
theorem tokens_mark_of_error {position : Nat} {e : ParseError}
    (h : d.readSegment position seg = .error e) :
    (mark seg kind lexeme more).tokens d position = .error e := by
  rw [tokens, h]
  rfl

/-- Behind the tokens of the first segment and its mark come those of the rest. -/
theorem tokens_mark_of_ok {position : Nat} {term : Option Token}
    (h : d.readSegment position seg = .ok term) :
    (mark seg kind lexeme more).tokens d position
      = (more.tokens d (position + Text.byteSize (seg ++ lexeme))).map fun rest =>
          term.toList ++ ⟨kind, position + Text.byteSize seg⟩ :: rest := by
  rw [tokens, h]
  cases more.tokens d (position + Text.byteSize (seg ++ lexeme)) <;> rfl

/-- The tokens of a layout of one segment. -/
theorem tokens_last_eq_ok_iff {position : Nat} {ts : List Token} :
    (last seg).tokens d position = .ok ts ↔
      ∃ term, d.readSegment position seg = .ok term ∧ ts = term.toList := by
  rw [tokens_last]
  cases d.readSegment position seg with
  | error e => simp [Except.map]
  | ok term => simp [Except.map, eq_comm]

/-- The tokens of a layout of several segments. -/
theorem tokens_mark_eq_ok_iff {position : Nat} {ts : List Token} :
    (mark seg kind lexeme more).tokens d position = .ok ts ↔
      ∃ term rest, d.readSegment position seg = .ok term ∧
        more.tokens d (position + Text.byteSize (seg ++ lexeme)) = .ok rest ∧
        ts = term.toList ++ ⟨kind, position + Text.byteSize seg⟩ :: rest := by
  cases hterm : d.readSegment position seg with
  | error e => simp [tokens_mark_of_error hterm]
  | ok term =>
      rw [tokens_mark_of_ok hterm]
      cases more.tokens d (position + Text.byteSize (seg ++ lexeme)) with
      | error e => simp [Except.map]
      | ok rest => simp [Except.map, eq_comm]

/-- A layout of one blank segment has no tokens. -/
theorem tokens_last_of_blank (hd : d.Sound) (h : seg.all Text.isBlank = true) (position : Nat) :
    (last seg).tokens d position = .ok [] := by
  rw [tokens_last, readSegment_of_blank hd h]
  rfl

/-- A blank segment in front of a mark has no token. -/
theorem tokens_mark_of_blank (hd : d.Sound) (h : seg.all Text.isBlank = true) {position : Nat}
    {ts : List Token} :
    (mark seg kind lexeme more).tokens d position = .ok ts ↔
      ∃ rest, more.tokens d (position + Text.byteSize (seg ++ lexeme)) = .ok rest ∧
        ts = ⟨kind, position + Text.byteSize seg⟩ :: rest := by
  rw [tokens_mark_eq_ok_iff, readSegment_of_blank hd h]
  constructor
  · rintro ⟨_, rest, ⟨⟩, hrest, rfl⟩
    exact ⟨rest, hrest, rfl⟩
  · rintro ⟨rest, hrest, rfl⟩
    exact ⟨none, rest, rfl, hrest, rfl⟩

/-- Text in front of a blank segment becomes the first segment. -/
theorem tokens_prepend (hd : d.Sound) {position : Nat} {ts : List Token} {term : Option Token}
    (hblank : l.first.all Text.isBlank = true)
    (hread : d.readSegment position (x ++ l.first) = .ok term)
    (h : l.tokens d (position + Text.byteSize x) = .ok ts) :
    (l.prepend x).tokens d position = .ok (term.toList ++ ts) := by
  cases l with
  | last seg =>
      obtain rfl := Except.ok.inj ((tokens_last_of_blank hd hblank _).symm.trans h)
      exact tokens_last_eq_ok_iff.mpr ⟨term, hread, by simp⟩
  | mark seg kind lexeme more =>
      have hblank : seg.all Text.isBlank = true := hblank
      obtain ⟨rest, hrest, rfl⟩ := (tokens_mark_of_blank hd hblank).mp h
      refine tokens_mark_eq_ok_iff.mpr ⟨term, rest, hread, ?_, by simp [Nat.add_assoc]⟩
      simpa [Nat.add_assoc] using hrest

/-! ### Every query has a layout -/

/-- The first segment can be extended to the left, as long as no mark begins. -/
theorem Valid.prepend (hplain : d.Plain before x l.text) (h : l.Valid d (before ++ x)) :
    (l.prepend x).Valid d before := by
  cases h with
  | last hseg =>
      exact .last (plain_append_iff.mpr ⟨by simpa [text] using hplain, hseg⟩)
  | mark hseg hmark hmore =>
      refine .mark (plain_append_iff.mpr ⟨by simpa [text] using hplain, hseg⟩) ?_ ?_
      · simpa using hmark
      · simpa using hmore

/-- **Every query has a layout**: if a mark begins at the next character, it is the next mark;
otherwise the character belongs to the next segment. -/
theorem exists_valid (hd : d.Sound) (before rest : Text) :
    ∃ l : Layout, l.Valid d before ∧ l.text = rest := by
  induction hn : rest.length using Nat.strong_induction_on generalizing before rest with
  | _ n ih =>
    subst hn
    by_cases hmark : d.NoMark before rest
    · cases rest with
      | nil => exact ⟨.last [], .last plain_nil, rfl⟩
      | cons c rest =>
          obtain ⟨l, hl, rfl⟩ := ih rest.length (by simp) (before ++ [c]) rest rfl
          exact ⟨l.prepend [c], hl.prepend (plain_cons_iff.mpr ⟨by simpa using hmark, plain_nil⟩),
            text_prepend l [c]⟩
    · simp only [NoMark, not_forall, not_not] at hmark
      obtain ⟨kind, lexeme, rest, rfl, hmark⟩ := hmark
      have hlt : rest.length < (lexeme ++ rest).length := by
        have := List.length_pos_iff.mpr (hd.ne_nil_of_markAt hmark)
        simp only [List.length_append]
        omega
      obtain ⟨l, hl, rfl⟩ := ih rest.length hlt (before ++ lexeme) rest rfl
      exact ⟨.mark [] kind lexeme l, .mark plain_nil (by simpa using hmark) (by simpa using hl),
        rfl⟩

/-! ### Tails -/

theorem tail_last_iff : Tail (last seg) x tail ↔ x = [] ∧ tail = last seg := by
  constructor
  · rintro ⟨⟩
    exact ⟨rfl, rfl⟩
  · rintro ⟨rfl, rfl⟩
    exact .all _

theorem tail_mark_iff : Tail (mark seg kind lexeme more) x tail ↔
    x = [] ∧ tail = mark seg kind lexeme more ∨
      ∃ y, x = seg ++ lexeme ++ y ∧ Tail more y tail := by
  constructor
  · intro h
    cases h with
    | all => exact .inl ⟨rfl, rfl⟩
    | later h => exact .inr ⟨_, rfl, h⟩
  · rintro (⟨rfl, rfl⟩ | ⟨y, rfl, h⟩)
    · exact .all _
    · exact .later h

/-- A tail is the layout of what follows. -/
theorem Tail.text (h : Tail l x tail) : l.text = x ++ tail.text := by
  induction h with
  | all l => rfl
  | later _ ih => simp [Layout.text, ih]

/-- A tail of the layout of a query is the layout of the rest of the query. -/
theorem Tail.valid (h : Tail l x tail) (hl : l.Valid d before) : tail.Valid d (before ++ x) := by
  induction h generalizing before with
  | all l => simpa using hl
  | later _ ih =>
      cases hl with
      | mark _ _ hmore => simpa using ih hmore

/-- The tail of a tail. -/
theorem Tail.trans {last : Layout} (h : Tail l x tail) (h' : Tail tail y last) :
    Tail l (x ++ y) last := by
  induction h with
  | all l => exact h'
  | later _ ih => simpa using Tail.later (ih h')

/-- What follows a mark of the layout. -/
theorem Tail.behind (h : Tail l x (.mark seg kind lexeme more)) :
    Tail l (x ++ seg ++ lexeme) more := by
  simpa using h.trans (.later (.all more))

/-! ### Marks and segments of the query are those of its layout -/

/-- **Every mark of the query is one of its layout.** -/
theorem Valid.tail_of_markAt (hd : d.Sound) (hl : l.Valid d before)
    (hmark : d.MarkAt (before ++ x) kind lexeme rest) (htext : l.text = x ++ (lexeme ++ rest)) :
    ∃ y seg more, Tail l y (.mark seg kind lexeme more) ∧ x = y ++ seg ∧ more.text = rest := by
  have hne := hd.ne_nil_of_markAt hmark
  induction hl generalizing x with
  | @last _ s hplain =>
      obtain rfl : s = x ++ (lexeme ++ rest) := htext
      exact absurd hmark (hplain.not_markAt (by simp [hne]) (by simp))
  | @mark before s lexeme' kind' more hplain hmark' hmore ih =>
      have hbehind : ∀ w, x = s ++ lexeme' ++ w → more.text = w ++ (lexeme ++ rest) →
          ∃ y seg tail, Tail (.mark s kind' lexeme' more) y (.mark seg kind lexeme tail) ∧
            x = y ++ seg ∧ tail.text = rest := by
        rintro w rfl hw
        obtain ⟨y, seg, tail, htail, rfl, hrest⟩ := ih (x := w) (by simpa using hmark) hw
        exact ⟨s ++ lexeme' ++ y, seg, tail, .later htail, by simp, hrest⟩
      have hfirst : x = s → lexeme' ++ more.text = lexeme ++ rest →
          ∃ y seg tail, Tail (.mark s kind' lexeme' more) y (.mark seg kind lexeme tail) ∧
            x = y ++ seg ∧ tail.text = rest := by
        rintro rfl heq
        obtain ⟨rfl, rfl, rfl⟩ := hd.markAt_unique hmark' hmark heq
        exact ⟨[], x, more, .all _, rfl, rfl⟩
      rw [text] at htext
      rcases List.append_eq_append_iff.mp htext with ⟨z, rfl, hz⟩ | ⟨z, rfl, hz⟩
      · by_cases hzero : z = []
        · exact hfirst (by simp [hzero]) (by simpa [hzero] using hz)
        rcases List.append_eq_append_iff.mp hz with ⟨w, rfl, hw⟩ | ⟨w, rfl, hw⟩
        · exact hbehind w (by simp) hw
        by_cases hend : w = []
        · exact hbehind [] (by simp [hend]) (by simpa [hend] using hw.symm)
        · -- the place is inside the first mark
          have hmark : d.MarkAt (before ++ s ++ z) kind lexeme rest := by simpa using hmark
          exact absurd hmark (hd.noMark_inside hmark' hzero hend _ _ _ hw.symm)
      · by_cases hzero : z = []
        · exact hfirst (by simp [hzero]) (by simpa [hzero] using hz.symm)
        · exact absurd hmark (hplain.not_markAt hzero hz.symm)

/-- A tail that is not the whole layout comes behind a mark. -/
theorem Tail.eq_or_mark (h : Tail l x tail) :
    x = [] ∧ tail = l ∨ ∃ y seg kind lexeme, x = y ++ seg ++ lexeme ∧
      Tail l y (.mark seg kind lexeme tail) := by
  induction h with
  | all l => exact .inl ⟨rfl, rfl⟩
  | @later seg lexeme x kind more tail h ih =>
      refine .inr ?_
      rcases ih with ⟨rfl, rfl⟩ | ⟨y, seg', kind', lexeme', rfl, hmark⟩
      · exact ⟨[], seg, kind, lexeme, by simp, .all _⟩
      · exact ⟨seg ++ lexeme ++ y, seg', kind', lexeme', by simp, .later hmark⟩

/-- The first segment of a layout is plain, and a mark begins behind it. -/
theorem Valid.first (h : l.Valid d before) :
    ∃ after, l.text = l.first ++ after ∧ d.Plain before l.first after ∧
      (after = [] ∨ ∃ kind lexeme rest, after = lexeme ++ rest ∧
        d.MarkAt (before ++ l.first) kind lexeme rest) := by
  cases h with
  | last hplain => exact ⟨[], (List.append_nil _).symm, hplain, .inl rfl⟩
  | mark hplain hmark => exact ⟨_, rfl, hplain, .inr ⟨_, _, _, rfl, hmark⟩⟩

/-- Each tail of the layout of a query begins with a segment of the query. -/
theorem Valid.segment_of_tail (hl : l.Valid d []) (h : Tail l before tail) :
    ∃ after, tail.text = tail.first ++ after ∧ d.Segment before tail.first after := by
  obtain ⟨after, htext, hplain, hends⟩ := (h.valid hl).first
  refine ⟨after, htext, ?_, hplain, hends⟩
  rcases h.eq_or_mark with ⟨hnil, -⟩ | ⟨y, seg, kind, lexeme, rfl, hmark⟩
  · exact .inl hnil
  · refine .inr ⟨y ++ seg, kind, lexeme, rfl, ?_⟩
    cases hmark.valid hl with
    | mark _ hmark _ => simpa [htext] using hmark

/-- Every segment of the query is one of its layout. -/
theorem Valid.tail_of_segment (hd : d.Sound) (hl : l.Valid d []) (hseg : d.Segment before seg after)
    (htext : l.text = before ++ (seg ++ after)) :
    ∃ tail, Tail l before tail ∧ tail.first = seg ∧ tail.text = seg ++ after := by
  have htail : ∃ tail, Tail l before tail ∧ tail.text = seg ++ after := by
    rcases hseg.starts with rfl | ⟨front, kind, lexeme, rfl, hmark⟩
    · exact ⟨l, .all l, htext⟩
    · obtain ⟨y, s, more, htail, rfl, hmore⟩ :=
        hl.tail_of_markAt hd (x := front) (by simpa using hmark) (by simpa using htext)
      exact ⟨more, htail.behind, hmore⟩
  obtain ⟨tail, htail, htext⟩ := htail
  refine ⟨tail, htail, ?_, htext⟩
  -- two segments that begin together end together, because both end at the next mark
  obtain ⟨after', htext', hplain, hends⟩ := (htail.valid hl).first
  rw [htext'] at htext
  rcases List.append_eq_append_iff.mp htext with ⟨z, hz, rfl⟩ | ⟨z, hz, rfl⟩
  · by_cases hzero : z = []
    · simp [hz, hzero]
    rcases hends with hnil | ⟨kind, lexeme, rest, heq, hmark⟩
    · simp [hzero] at hnil
    · have hplain := hz ▸ hseg.plain
      exact absurd hmark (by simpa using hplain.not_markAt hzero heq)
  · by_cases hzero : z = []
    · simp [hz, hzero]
    rcases hseg.ends with hnil | ⟨kind, lexeme, rest, heq, hmark⟩
    · simp [hzero] at hnil
    · rw [hz] at hplain
      exact absurd hmark (by simpa using hplain.not_markAt hzero heq)

/-- **The segments of the query are those of its layout.** -/
theorem Valid.segmentOf_iff (hd : d.Sound) (hl : l.Valid d []) :
    d.SegmentOf l.text before seg ↔ ∃ tail, Tail l before tail ∧ tail.first = seg := by
  constructor
  · rintro ⟨after, htext, hseg⟩
    obtain ⟨tail, htail, hfirst, -⟩ := hl.tail_of_segment hd hseg htext
    exact ⟨tail, htail, hfirst⟩
  · rintro ⟨tail, htail, rfl⟩
    obtain ⟨after, htext, hseg⟩ := hl.segment_of_tail htail
    exact ⟨after, by rw [htail.text, htext], hseg⟩

end Layout

end BoolQuery
