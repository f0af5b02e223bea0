import BoolQuery.Proofs.Query.Errors
import BoolQuery.Proofs.Token.Context
import BoolQuery.Proofs.Token.Padded

/-!
# White Space Between Tokens

White space may be put in at the ends of a query and next to its marks. The tokens stay the same,
and so does the error if there is one; only the places behind the white space move on by its size.

The white space becomes part of a segment, at its start or at its end, and there it does not
matter. But it is also something that words end at and begin behind, and so it must be shown that
no keyword is one only because of it: this is so because next to a mark every word ends anyway.

## Main definitions

* `Dialect.Gap`: the places of a query where white space may be put in.
* `Dialect.InterchangeableAt`, `Dialect.Divided`: texts before a place, and behind a place, that
  make for the same marks.
* `Layout.Spaced`: a layout with white space put in.

## Main results

* `Layout.Spaced.valid`: the marks of the query stay its marks, and there are no others.
* `Layout.Spaced.tokens`: the tokens, or the error.
* `tokenize_spaced`: the tokens of the query, or its error.
-/

namespace BoolQuery

namespace Dialect

variable {d : Dialect} {before before' seg after after' rest lexeme x y w : Text}
  {kind : TokenKind}

/-- The places of the query `x ++ y` where white space may be put in between `x` and `y`: the two
ends, and the places in front of a mark and behind one. -/
inductive Gap (d : Dialect) : (x y : Text) → Prop
  | start (y : Text) : Gap d [] y
  | finish (x : Text) : Gap d x []
  | front {x lexeme after : Text} {kind : TokenKind} :
      d.MarkAt x kind lexeme after → Gap d x (lexeme ++ after)
  | behind {before lexeme y : Text} {kind : TokenKind} :
      d.MarkAt before kind lexeme y → Gap d (before ++ lexeme) y

/-! ### What stands before -/

/-- Behind both texts the same marks begin in front of `rest`: quotes count alike, and words may
begin alike, unless no keyword stands there anyway. -/
structure InterchangeableAt (d : Dialect) (before before' rest : Text) : Prop where
  /-- Quotes. -/
  outside : d.Outside before ↔ d.Outside before'
  /-- Words. -/
  word : (d.WordStart before ↔ d.WordStart before') ∨ d.keywordAt? rest = none

namespace InterchangeableAt

/-- Behind some text in common. -/
theorem append (h : d.InterchangeableAt before before' rest) (hx : x ≠ []) (rest' : Text) :
    d.InterchangeableAt (before ++ x) (before' ++ x) rest' := by
  have hbehind := interchangeable_append h.outside hx
  exact ⟨hbehind.outside, .inl hbehind.wordStart⟩

/-- Where no mark begins, none begins. -/
theorem noMark (hd : d.Sound) {c : Char} (h : d.InterchangeableAt before before' (c :: rest))
    (hmark : d.NoMark before (c :: rest)) : d.NoMark before' (c :: rest) := by
  rw [hd.noMark_cons_iff] at hmark ⊢
  intro hout
  obtain ⟨hgroup, hkey⟩ := hmark (h.outside.mpr hout)
  refine ⟨hgroup, fun hstart => ?_⟩
  rcases h.word with hword | hnone
  · exact hkey (hword.mpr hstart)
  · exact hnone

/-- Where a mark begins, the same one begins. -/
theorem markAt (hd : d.Sound) (h : d.InterchangeableAt before before' (lexeme ++ after))
    (hmark : d.MarkAt before kind lexeme after) : d.MarkAt before' kind lexeme after := by
  cases hmark with
  | openGroup _ hout => exact .openGroup _ (h.outside.mp hout)
  | closeGroup _ hout => exact .closeGroup _ (h.outside.mp hout)
  | operator op hout hstart hend =>
      rcases h.word with hword | hnone
      · exact .operator op (h.outside.mp hout) (hword.mp hstart) hend
      · rw [hd.keywordAt?_eq_some_iff_append.mpr ⟨rfl, hend⟩] at hnone
        cases hnone

/-- A plain stretch is plain. -/
theorem plain (hd : d.Sound) (h : d.InterchangeableAt before before' (seg ++ after))
    (hplain : d.Plain before seg after) : d.Plain before' seg after := by
  rintro u c v rfl
  have hmark := hplain u c v rfl
  by_cases hu : u = []
  · subst hu
    rw [List.append_nil] at hmark ⊢
    exact noMark hd (by simpa using h) hmark
  · exact noMark hd (h.append hu _) hmark

end InterchangeableAt

/-! ### What stands behind -/

/-- No keyword reaches across the place behind `front`, in front of `after` or of `after'`: a word
begins there, or both texts begin with something that words end at. -/
def Divided (d : Dialect) (front after after' : Text) : Prop :=
  d.WordStart front ∨
    after.head?.all d.endsWord = true ∧ after'.head?.all d.endsWord = true

/-- In a stretch behind which a word begins, words end somewhere. -/
theorem exists_endsWord_of_wordStart (h : d.WordStart (before ++ seg)) (hne : seg ≠ []) :
    ∃ c ∈ seg, d.endsWord c = true := by
  by_contra hnone
  simp only [not_exists, not_and, Bool.not_eq_true] at hnone
  exact not_wordStart_append hne hnone h

/-- Behind a character that words end at, nothing is part of a keyword at the front of a text. -/
theorem Sound.keywordAt?_append_of_endsWord (hd : d.Sound) {t : Text}
    (h : ∃ c ∈ t, d.endsWord c = true) :
    d.keywordAt? (t ++ after) = none ↔ d.keywordAt? t = none := by
  have hword : (t ++ after).takeWhile (!d.endsWord ·) = t.takeWhile (!d.endsWord ·) := by
    rw [List.takeWhile_append, if_neg]
    intro hlength
    obtain ⟨c, hc, hend⟩ := h
    rw [← (List.takeWhile_prefix (l := t) (!d.endsWord ·)).eq_of_length hlength] at hc
    simpa [hend] using List.mem_takeWhile_imp hc
  rw [hd.keywordAt?_eq_none_iff, hd.keywordAt?_eq_none_iff, hword]

/-- **A plain stretch is plain** whichever of the texts comes behind it. -/
theorem Plain.divided (hd : d.Sound) (h : d.Plain before seg after)
    (hdiv : d.Divided (before ++ seg) after after') : d.Plain before seg after' := by
  rintro u c v rfl
  have hkey : d.keywordAt? (c :: v ++ after) = none ↔ d.keywordAt? (c :: v ++ after') = none := by
    rcases hdiv with hstart | ⟨hafter, hafter'⟩
    · rw [← List.append_assoc] at hstart
      have hend := exists_endsWord_of_wordStart hstart (by simp)
      rw [hd.keywordAt?_append_of_endsWord hend, hd.keywordAt?_append_of_endsWord hend]
    · rw [hd.keywordAt?_append_eq_none_iff _ hafter, hd.keywordAt?_append_eq_none_iff _ hafter']
  have hmark := h u c v rfl
  rw [hd.noMark_cons_iff] at hmark ⊢
  intro hout
  obtain ⟨hgroup, hnone⟩ := hmark hout
  exact ⟨hgroup, fun hstart => hkey.mp (hnone hstart)⟩

/-- In front of a mark a word begins, or the mark is something that words end at. -/
theorem MarkAt.divides (h : d.MarkAt before kind lexeme after) :
    d.WordStart before ∨ ∀ t : Text, (lexeme ++ t).head?.all d.endsWord = true := by
  cases h with
  | openGroup => exact .inr fun t => by simp [endsWord]
  | closeGroup => exact .inr fun t => by simp [endsWord]
  | operator op _ hstart => exact .inl hstart

/-- In front of a mark a word begins, or no keyword stands there. -/
theorem MarkAt.wordStart (hd : d.Sound) (h : d.MarkAt before kind lexeme after) :
    d.WordStart before ∨ d.keywordAt? (lexeme ++ after) = none := by
  refine h.divides.imp_right fun hend => ?_
  obtain ⟨c, rest, rfl⟩ := List.exists_cons_of_ne_nil (hd.ne_nil_of_markAt h)
  exact hd.keywordAt?_eq_none (by simpa using hend []) _

/-- A mark is one in front of another text, too, if words end there as before. -/
theorem MarkAt.follow (h : d.MarkAt before kind lexeme after)
    (hend : after.head?.all d.endsWord = true → after'.head?.all d.endsWord = true) :
    d.MarkAt before kind lexeme after' := by
  cases h with
  | openGroup _ hout => exact .openGroup _ hout
  | closeGroup _ hout => exact .closeGroup _ hout
  | operator op hout hstart hafter => exact .operator op hout hstart (hend hafter)

/-! ### White space at a place -/

/-- Behind white space outside quotes a word begins. -/
theorem wordStart_append_blank (hd : d.Sound) (hout : d.Outside before)
    (hw : w.all Text.isBlank = true) (hne : w ≠ []) : d.WordStart (before ++ w) := by
  have hquote := hd.quote_notMem_of_blank hw
  have hlast := List.getLast_mem hne
  have hfront : d.quote ∉ w.dropLast := fun hmem => hquote (List.dropLast_subset _ hmem)
  rw [← List.dropLast_append_getLast hne, ← List.append_assoc, wordStart_append_singleton]
  refine ⟨⟨fun heq => hquote (heq ▸ hlast), (outside_append_of_notMem hfront).mpr hout⟩, .inl ?_⟩
  exact List.all_eq_true.mp hw _ hlast

/-- Behind white space the same marks begin as in front of it, where a word begins or no keyword
stands. -/
theorem interchangeableAt_append_blank (hd : d.Sound) (hout : d.Outside before)
    (hw : w.all Text.isBlank = true) (hword : d.WordStart before ∨ d.keywordAt? rest = none) :
    d.InterchangeableAt before (before ++ w) rest := by
  by_cases hne : w = []
  · rw [hne, List.append_nil]
    exact ⟨Iff.rfl, .inl Iff.rfl⟩
  · refine ⟨(outside_append_of_notMem (hd.quote_notMem_of_blank hw)).symm, ?_⟩
    exact hword.imp_left fun hstart =>
      iff_of_true hstart (wordStart_append_blank hd hout hw hne)

/-- White space in a text that ends words at its front leaves this so. -/
theorem endsWord_head?_insert_blank (h : (x ++ y).head?.all d.endsWord = true)
    (hw : w.all Text.isBlank = true) : (x ++ (w ++ y)).head?.all d.endsWord = true := by
  cases x with
  | cons c x => exact h
  | nil =>
      cases w with
      | nil => exact h
      | cons c w =>
          simp only [List.all_cons, Bool.and_eq_true] at hw
          simp [endsWord, hw.1]

end Dialect

open Dialect

/-! ### Places behind white space -/

/-- The place `p`, moved on by `k` bytes if it is at `split` or behind it. -/
def movedFrom (split k p : Nat) : Nat :=
  if split ≤ p then p + k else p

/-- The token, moved on by `k` bytes if it is at `split` or behind it. -/
def Token.moveFrom (split k : Nat) (t : Token) : Token :=
  { t with position := movedFrom split k t.position }

/-- The error, moved on by `k` bytes if it is at `split` or behind it. -/
def ParseError.moveFrom (split k : Nat) (e : ParseError) : ParseError :=
  { e with position := movedFrom split k e.position }

/-- The result, whose tokens or error are moved on from `split`. -/
def moveResult (split k : Nat) (r : Except ParseError (List Token)) :
    Except ParseError (List Token) :=
  (r.map (List.map (Token.moveFrom split k))).mapError (ParseError.moveFrom split k)

section Moved

variable {split k p : Nat} {t : Token} {e : ParseError}

/-- Behind the split, everything is moved on. -/
theorem movedFrom_of_le (h : split ≤ p) : movedFrom split k p = p + k :=
  if_pos h

/-- In front of the split, everything stays. -/
theorem movedFrom_of_lt (h : p < split) : movedFrom split k p = p :=
  if_neg (Nat.not_le_of_lt h)

theorem Token.moveFrom_of_lt (h : t.position < split) : t.moveFrom split k = t := by
  rw [moveFrom, movedFrom_of_lt h]

theorem ParseError.moveFrom_of_lt (h : e.position < split) : e.moveFrom split k = e := by
  rw [moveFrom, movedFrom_of_lt h]

/-- What begins at the split or behind it is moved on as a whole. -/
theorem moveResult_shiftResult (h : split ≤ p) (r : Except ParseError (List Token)) :
    moveResult split k (shiftResult (List.map (Token.shift p)) p r)
      = shiftResult (List.map (Token.shift (p + k))) (p + k) r := by
  have hplace : ∀ n, movedFrom split k (n + p) = n + (p + k) := fun n => by
    rw [movedFrom_of_le (Nat.le_trans h (Nat.le_add_left p n)), Nat.add_assoc]
  cases r with
  | error e => simp [moveResult, shiftResult, Except.map, Except.mapError, ParseError.moveFrom,
      ParseError.shift, hplace]
  | ok ts => simp [moveResult, shiftResult, Except.map, Except.mapError, Token.moveFrom,
      Token.shift, hplace]

end Moved

namespace Layout

variable {d : Dialect} {before x y u w lexeme : Text} {kind : TokenKind} {l l' tail tail' : Layout}
  {p : Nat}

/-- The layout `l'` is `l` with the white space `w` put in behind the text `x`, where a segment
begins or ends. -/
inductive Spaced (w : Text) : (x : Text) → (l l' : Layout) → Prop
  | front (l : Layout) : Spaced w [] l (l.prepend w)
  | last (seg : Text) : Spaced w seg (last seg) (last (seg ++ w))
  | mark (seg : Text) (kind : TokenKind) (lexeme : Text) (more : Layout) :
      Spaced w seg (mark seg kind lexeme more) (mark (seg ++ w) kind lexeme more)
  | later {x : Text} {more more' : Layout} (seg : Text) (kind : TokenKind) (lexeme : Text) :
      Spaced w x more more' →
      Spaced w (seg ++ lexeme ++ x) (mark seg kind lexeme more) (mark seg kind lexeme more')

/-- A layout is one behind any text that makes for the same marks. -/
theorem Valid.exchange {before' : Text} (hd : d.Sound) (hl : l.Valid d before)
    (h : d.InterchangeableAt before before' l.text) : l.Valid d before' := by
  induction hl generalizing before' with
  | last hplain => exact .last (InterchangeableAt.plain hd (by simpa [text] using h) hplain)
  | @mark before seg lexeme kind more hplain hmark hmore ih =>
      have hmark' : d.MarkAt (before' ++ seg) kind lexeme more.text := by
        by_cases hseg : seg = []
        · subst hseg
          rw [List.append_nil] at hmark ⊢
          exact h.markAt hd hmark
        · exact (h.append hseg _).markAt hd hmark
      refine .mark (h.plain hd hplain) hmark' (ih ?_)
      rw [List.append_assoc, List.append_assoc]
      exact h.append (by simp [hd.ne_nil_of_markAt hmark]) _

namespace Spaced

/-- The texts. -/
theorem text (h : Spaced w x l l') : ∃ y, l.text = x ++ y ∧ l'.text = x ++ (w ++ y) := by
  induction h with
  | front l => exact ⟨l.text, rfl, text_prepend l w⟩
  | last seg => exact ⟨[], by simp [Layout.text], by simp [Layout.text]⟩
  | mark seg kind lexeme more => exact ⟨lexeme ++ more.text, rfl, by simp [Layout.text]⟩
  | later seg kind lexeme _ ih =>
      obtain ⟨y, hy, hy'⟩ := ih
      exact ⟨y, by simp [Layout.text, hy], by simp [Layout.text, hy']⟩

/-! ### Where white space may be put in -/

/-- White space at the end of the query. -/
theorem exists_finish (w : Text) (l : Layout) : ∃ l', Spaced w l.text l l' := by
  induction l with
  | last seg => exact ⟨_, .last seg⟩
  | mark seg kind lexeme more ih =>
      obtain ⟨more', hmore⟩ := ih
      exact ⟨.mark seg kind lexeme more', by simpa [Layout.text] using later seg kind lexeme hmore⟩

/-- White space in a tail of the layout. -/
theorem exists_of_tail (htail : Tail l u tail) (h : Spaced w x tail tail') :
    ∃ l', Spaced w (u ++ x) l l' := by
  induction htail with
  | all l => exact ⟨tail', h⟩
  | @later seg lexeme u kind more tail _ ih =>
      obtain ⟨more', hmore⟩ := ih h
      exact ⟨.mark seg kind lexeme more', by simpa using later seg kind lexeme hmore⟩

/-- **In each gap of a query white space can be put into its layout.** -/
theorem exists_of_gap (hd : d.Sound) (hl : l.Valid d []) (hgap : d.Gap x y)
    (htext : l.text = x ++ y) (w : Text) : ∃ l', Spaced w x l l' := by
  cases hgap with
  | start => exact ⟨_, .front l⟩
  | finish =>
      rw [List.append_nil] at htext
      exact htext ▸ exists_finish w l
  | front hmark =>
      obtain ⟨u, seg, more, htail, rfl, -⟩ := hl.tail_of_markAt hd hmark htext
      exact exists_of_tail htail (.mark seg _ _ more)
  | @behind before lexeme _ kind hmark =>
      rw [List.append_assoc] at htext
      obtain ⟨u, seg, more, htail, rfl, -⟩ := hl.tail_of_markAt hd (x := before) hmark htext
      simpa using exists_of_tail htail.behind (.front (w := w) more)

/-! ### The marks stay -/

/-- A text that ends words at its front still does with white space put in. -/
theorem endsWord_head? (h : Spaced w x l l') (hw : w.all Text.isBlank = true)
    (hend : l.text.head?.all d.endsWord = true) : l'.text.head?.all d.endsWord = true := by
  obtain ⟨y, hy, hy'⟩ := h.text
  rw [hy] at hend
  rw [hy']
  exact endsWord_head?_insert_blank hend hw

/-- **The marks of the query stay its marks, and there are no others.** Induction on where the white
space is: up to there the marks have something else behind them, from there on something else
before them. -/
theorem valid (hd : d.Sound) (h : Spaced w x l l') (hw : w.all Text.isBlank = true)
    (hl : l.Valid d before) (hout : d.Outside before)
    (hword : d.WordStart before ∨ d.keywordAt? l.text = none) : l'.Valid d before := by
  have hquote := hd.quote_notMem_of_blank hw
  induction h generalizing before with
  | front l =>
      refine Valid.prepend (plain_of_blank hd hw) ?_
      exact hl.exchange hd (interchangeableAt_append_blank hd hout hw hword)
  | last seg =>
      cases hl with
      | last hplain =>
          have hend : d.Divided (before ++ seg) [] w :=
            .inr ⟨rfl, by simpa using endsWord_head?_insert_blank (x := []) (y := []) rfl hw⟩
          refine .last (plain_append_iff.mpr ⟨?_, plain_of_blank hd hw⟩)
          simpa using hplain.divided hd hend
  | mark seg kind lexeme more =>
      cases hl with
      | mark hplain hmark hmore =>
          have hblank := interchangeableAt_append_blank hd hmark.outside hw (hmark.wordStart hd)
          refine .mark (plain_append_iff.mpr ⟨hplain.divided hd ?_, plain_of_blank hd hw⟩) ?_ ?_
          · exact hmark.divides.imp_right fun hend =>
              ⟨hend _, endsWord_head?_insert_blank (x := []) (hend _) hw⟩
          · simpa using hblank.markAt hd hmark
          · rw [← List.append_assoc]
            exact hmore.exchange hd (hblank.append (hd.ne_nil_of_markAt hmark) _)
  | later seg kind lexeme hmore' ih =>
      cases hl with
      | mark hplain hmark hmore =>
          refine .mark (hplain.divided hd ?_) (hmark.follow (hmore'.endsWord_head? hw))
            (ih hmore ?_ (hd.wordStart_of_markAt hmark))
          · exact hmark.divides.imp_right fun hend => ⟨hend _, hend _⟩
          · exact (outside_append_of_notMem (hd.quote_notMem_of_markAt hmark)).mpr hmark.outside

/-! ### The tokens stay -/

/-- The token or the error of a segment that ends in front of the split is not moved. -/
theorem moveResult_segment {seg : Text} {split k : Nat} (h : p + Text.byteSize seg ≤ split) :
    moveResult split k ((d.readSegment p seg).map Option.toList) =
      (d.readSegment p seg).map Option.toList := by
  cases hread : d.readSegment p seg with
  | error e =>
      have hlt := Nat.lt_of_lt_of_le (readSegment_eq_error hread).1.2 h
      simp [moveResult, Except.map, Except.mapError, ParseError.moveFrom_of_lt hlt]
  | ok term =>
      cases term with
      | none => rfl
      | some t =>
          have hlt := Nat.lt_of_lt_of_le (readSegment_bounds hread).2 h
          simp [moveResult, Except.map, Except.mapError, Token.moveFrom_of_lt hlt]

/-- In a layout whose first segment ends in front of the split, only the mark may be moved, and what
is behind it. -/
theorem moveResult_mark {seg : Text} {split k : Nat} (h : p + Text.byteSize seg ≤ split)
    (more : Layout) :
    moveResult split k ((Layout.mark seg kind lexeme more).tokens d p) = (do
      let term ← d.readSegment p seg
      let rest ← moveResult split k (more.tokens d (p + Text.byteSize (seg ++ lexeme)))
      return term.toList ++ ⟨kind, movedFrom split k (p + Text.byteSize seg)⟩ :: rest) := by
  have hsegment := moveResult_segment (d := d) (k := k) h
  cases hread : d.readSegment p seg with
  | error e =>
      rw [hread] at hsegment
      rw [tokens_mark_of_error hread]
      exact hsegment
  | ok term =>
      rw [hread] at hsegment
      have hterm : term.toList.map (Token.moveFrom split k) = term.toList :=
        Except.ok.inj hsegment
      rw [tokens_mark_of_ok hread]
      cases more.tokens d (p + Text.byteSize (seg ++ lexeme)) with
      | error e => rfl
      | ok rest =>
          have hrow : (term.toList ++ ⟨kind, p + Text.byteSize seg⟩ :: rest).map
              (Token.moveFrom split k) = term.toList ++
                ⟨kind, movedFrom split k (p + Text.byteSize seg)⟩ ::
                  rest.map (Token.moveFrom split k) := by
            rw [List.map_append, hterm]
            rfl
          exact congrArg Except.ok hrow

/-- The tokens of a layout that begins at the split or behind it. -/
theorem moveResult_tokens {split k : Nat} (h : split ≤ p) (l : Layout) :
    moveResult split k (l.tokens d p) = l.tokens d (p + k) := by
  have hplace : ∀ n, l.tokens d n = shiftResult (List.map (Token.shift n)) n (l.tokens d 0) :=
    fun n => by simpa using tokens_shift d l 0 n
  rw [hplace p, hplace (p + k), moveResult_shiftResult h]

/-- White space in front of a layout moves it on. -/
theorem tokens_prepend_blank (hd : d.Sound) (hw : w.all Text.isBlank = true) (l : Layout) :
    (l.prepend w).tokens d p = l.tokens d (p + Text.byteSize w) := by
  cases l with
  | last seg => simp only [prepend, Layout.tokens, readSegment_blank_append hd hw]
  | mark seg kind lexeme more =>
      simp only [prepend, Layout.tokens, readSegment_blank_append hd hw, Text.byteSize_append,
        Nat.add_assoc]

/-- **The tokens, or the error**, with everything moved on that is behind the white space. Induction
on where the white space is. -/
theorem tokens (hd : d.Sound) (h : Spaced w x l l') (hw : w.all Text.isBlank = true)
    (hl : l.Valid d before) (p : Nat) :
    l'.tokens d p = moveResult (p + Text.byteSize x) (Text.byteSize w) (l.tokens d p) := by
  induction h generalizing before p with
  | front l =>
      rw [tokens_prepend_blank hd hw, moveResult_tokens (by simp)]
  | last seg =>
      rw [tokens_last, tokens_last, readSegment_append_blank hd hw,
        moveResult_segment (Nat.le_refl _)]
  | mark seg kind lexeme more =>
      have hbehind : p + Text.byteSize (seg ++ w ++ lexeme)
          = p + Text.byteSize (seg ++ lexeme) + Text.byteSize w := by
        simp only [Text.byteSize_append]
        omega
      have hmark : p + Text.byteSize (seg ++ w) = p + Text.byteSize seg + Text.byteSize w := by
        rw [Text.byteSize_append, Nat.add_assoc]
      rw [moveResult_mark (Nat.le_refl _), moveResult_tokens (by simp),
        movedFrom_of_le (Nat.le_refl _), Layout.tokens, readSegment_append_blank hd hw, hbehind,
        hmark]
  | @later x more more' seg kind lexeme hspaced ih =>
      cases hl with
      | mark _ hmark hmore =>
          have hpos := hd.byteSize_pos_of_markAt hmark
          have hlt : p + Text.byteSize seg < p + Text.byteSize (seg ++ lexeme ++ x) := by
            simp only [Text.byteSize_append]
            omega
          rw [moveResult_mark (Nat.le_of_lt hlt), movedFrom_of_lt hlt, Layout.tokens, ih hmore,
            Text.byteSize_append _ x, Nat.add_assoc]

end Spaced

/-- The error of a layout names its character. -/
theorem exists_character_of_tokens {e : ParseError} (h : l.tokens d p = .error e) :
    ∃ c, e.character = some c := by
  induction l generalizing p with
  | last seg =>
      rw [tokens_last] at h
      cases hread : d.readSegment p seg with
      | ok term => simp [hread, Except.map] at h
      | error e' =>
          obtain rfl : e' = e := by simpa [hread, Except.map] using h
          exact (readSegment_eq_error hread).2
  | mark seg kind lexeme more ih =>
      cases hread : d.readSegment p seg with
      | error e' =>
          obtain rfl : e' = e := by simpa [tokens_mark_of_error hread] using h
          exact (readSegment_eq_error hread).2
      | ok term =>
          rw [tokens_mark_of_ok hread] at h
          cases hmore : more.tokens d (p + Text.byteSize (seg ++ lexeme)) with
          | ok rest =>
              rw [hmore] at h
              cases h
          | error e' =>
              rw [hmore] at h
              obtain rfl : e' = e := Except.error.inj h
              exact ih hmore

end Layout

variable {d : Dialect} {x y w : Text}

/-- The scan of a query with white space in a gap finds the same, moved on. -/
theorem scan_spaced (hd : d.Sound) (hgap : d.Gap x y) (hw : w.all Text.isBlank = true) :
    scan d (x ++ (w ++ y)) = moveResult (Text.byteSize x) (Text.byteSize w) (scan d (x ++ y)) := by
  obtain ⟨l, hl, htext, hscan⟩ := exists_layout hd (x ++ y)
  obtain ⟨l', hspaced⟩ := Layout.Spaced.exists_of_gap hd hl hgap htext w
  have hl' : l'.Valid d [] := hspaced.valid hd hw hl outside_nil (.inl (.inl rfl))
  have htext' : l'.text = x ++ (w ++ y) := by
    obtain ⟨y', hy, hy'⟩ := hspaced.text
    obtain rfl : y = y' := List.append_cancel_left (htext.symm.trans hy)
    exact hy'
  rw [← htext', scan_text hd hl', hscan, hspaced.tokens hd hw hl, Nat.zero_add]

/-- The error of a scan names its character. -/
theorem exists_character_of_scan (hd : d.Sound) {q : Text} {e : ParseError}
    (h : scan d q = .error e) : ∃ c, e.character = some c := by
  obtain ⟨l, -, -, hscan⟩ := exists_layout hd q
  exact Layout.exists_character_of_tokens (hscan ▸ h)

/-- **White space next to marks does not matter.** Let white space be put into a query at one of its
ends, or in front of or behind a grouping character or keyword that is one of its marks. If the
query can be cut into tokens, this gives the same tokens; if not, the same error, about the new
query. Everything at the place of the white space or behind it is moved on by its size. -/
theorem tokenize_spaced (hd : d.check = .ok ()) (hgap : d.Gap x y)
    (hw : w.all Text.isBlank = true) :
    (∀ ts, d.tokenize (x ++ y) = .ok ts → d.tokenize (x ++ (w ++ y))
      = .ok (ts.map (Token.moveFrom (Text.byteSize x) (Text.byteSize w)))) ∧
    (∀ e, d.tokenize (x ++ y) = .error e → d.tokenize (x ++ (w ++ y))
      = .error { e.moveFrom (Text.byteSize x) (Text.byteSize w) with query := x ++ (w ++ y) }) := by
  have hd := check_eq_ok_iff.mp hd
  have hscan := scan_spaced hd hgap hw
  constructor
  · intro ts hts
    rw [tokenize_eq_ok_iff] at hts ⊢
    rw [hscan, hts]
    rfl
  · intro e he
    obtain ⟨bare, hbare, rfl⟩ := inQuery_eq_error_iff.mp he
    obtain ⟨c, hc⟩ := exists_character_of_scan hd hbare
    rw [tokenize, hscan, hbare]
    simp [inQuery, moveResult, Except.map, Except.mapError, ParseError.inQuery,
      ParseError.moveFrom, hc]

/-- A keyword next to a bracket and a quote, and a field in front of a bracket: with a space the
keyword stays a keyword, and the field still has no value. -/
theorem tokenize_spaced_next_to_marks :
    Dialect.standard.tokenize "(NOT \"a\")".toList
      = .ok [⟨.openGroup, 0⟩, ⟨.operator .not, 1⟩, ⟨.term { value := "a".toList }, 5⟩,
          ⟨.closeGroup, 8⟩] ∧
    Dialect.standard.tokenize "f: (x)".toList
      = .error { fault := .malformedField, position := 1, character := some ':',
                 query := "f: (x)".toList } := by
  have hcheck : Dialect.standard.check = .ok () := by decide
  have hnot : Dialect.standard.MarkAt "(".toList (.operator .not) "NOT".toList "\"a\")".toList :=
    .operator .not (by decide) (.inr ⟨[], '(', rfl, ⟨by decide, outside_nil⟩, .inr (by decide)⟩)
      (by decide)
  have hopen : Dialect.standard.MarkAt "f:".toList .openGroup "(".toList "x)".toList :=
    .openGroup _ (by decide)
  have hspace : ([' '] : Text).all Text.isBlank = true := by decide
  exact ⟨(tokenize_spaced hcheck (.behind hnot) hspace).1
      [⟨.openGroup, 0⟩, ⟨.operator .not, 1⟩, ⟨.term { value := "a".toList }, 4⟩, ⟨.closeGroup, 7⟩]
      (by decide +kernel),
    (tokenize_spaced hcheck (.front hopen) hspace).2
      { fault := .malformedField, position := 1, character := some ':', query := "f:(x)".toList }
      (by decide +kernel)⟩

end BoolQuery
