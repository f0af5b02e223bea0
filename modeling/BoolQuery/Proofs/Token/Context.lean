import BoolQuery.Proofs.Grammar
import BoolQuery.Proofs.Token.Layout

/-!
# Layouts in Another Place

A query can stand inside another one: behind a text that is like the start of a query, and in
front of a character that is like its end. There it has the same marks and the same segments, so
its layout there is the same, and its tokens are the same but for their places.

## Main definitions

* `Dialect.Interchangeable`: texts behind which the same marks begin.
* `Layout.joined`: a layout, a mark behind it, and another layout behind the mark.
* `Token.shift`, `Phrase.shift`: tokens and phrases, moved on by some bytes.

## Main results

* `Layout.Valid.joined`: the joined layout has the marks of its text.
* `Layout.tokens_joined`, `Layout.tokens_shift`: its tokens, and those of a layout that is moved on.
* `Derives.shift`: what the tokens make up is moved on with them.
-/

namespace BoolQuery

namespace Dialect

variable {d : Dialect} {before before' seg lexeme after tail rest : Text} {kind : TokenKind}

/-! ### What stands before -/

/-- Behind both texts or behind neither a place is outside quotes, and behind both or behind
neither a word may begin. -/
structure Interchangeable (d : Dialect) (before before' : Text) : Prop where
  /-- Quotes. -/
  outside : d.Outside before ↔ d.Outside before'
  /-- Words. -/
  wordStart : d.WordStart before ↔ d.WordStart before'

/-- A place where a word may begin, outside quotes, is like the start of a query. -/
theorem interchangeable_nil (hout : d.Outside before) (hstart : d.WordStart before) :
    d.Interchangeable [] before :=
  ⟨iff_of_true outside_nil hout, iff_of_true (.inl rfl) hstart⟩

/-- Behind some text in common only the quotes before it matter. -/
theorem interchangeable_append {x : Text} (h : d.Outside before ↔ d.Outside before') (hx : x ≠ []) :
    d.Interchangeable (before ++ x) (before' ++ x) := by
  have hout : ∀ t : Text, d.Outside (before ++ t) ↔ d.Outside (before' ++ t) := by
    intro t
    simp only [Outside, List.count_append] at h ⊢
    omega
  refine ⟨hout x, ?_⟩
  rw [← List.dropLast_append_getLast hx, ← List.append_assoc, ← List.append_assoc,
    wordStart_append_singleton, wordStart_append_singleton, Unquoted, Unquoted, hout]

/-- Whatever is read behind both texts keeps them interchangeable. -/
theorem Interchangeable.append (h : d.Interchangeable before before') (x : Text) :
    d.Interchangeable (before ++ x) (before' ++ x) := by
  by_cases hx : x = []
  · simpa [hx] using h
  · exact interchangeable_append h.outside hx

/-! ### What stands behind -/

/-- Which keyword stands at the front of a text as a word does not depend on what comes behind a
character that ends words. -/
theorem Sound.keywordAt?_eq_none_iff (hd : d.Sound) {t : Text} :
    d.keywordAt? t = none ↔ ∀ op, d.keyword op ≠ t.takeWhile (!d.endsWord ·) := by
  rw [Option.eq_none_iff_forall_ne_some]
  constructor
  · intro h op heq
    exact h (op, _) (hd.keywordAt?_eq_some_iff.mpr (hd.afterKeyword?_eq_some_iff.mpr ⟨heq, rfl⟩))
  · rintro h ⟨op, rest⟩ hop
    exact h op (hd.afterKeyword?_eq_some_iff.mp (hd.keywordAt?_eq_some_iff.mp hop)).1

/-- Behind the end of a text there may be a character that ends words. -/
theorem Sound.keywordAt?_append_eq_none_iff (hd : d.Sound) (t : Text)
    (htail : tail.head?.all d.endsWord = true) :
    d.keywordAt? (t ++ tail) = none ↔ d.keywordAt? t = none := by
  have htake : tail.takeWhile (!d.endsWord ·) = [] := by
    cases tail with
    | nil => rfl
    | cons c tail =>
        have hc : d.endsWord c = true := by simpa using htail
        simp [hc]
  have hword : (t ++ tail).takeWhile (!d.endsWord ·) = t.takeWhile (!d.endsWord ·) := by
    rw [List.takeWhile_append, htake, List.append_nil]
    split
    · next hlength => exact ((List.takeWhile_prefix _).eq_of_length hlength).symm
    · rfl
  rw [hd.keywordAt?_eq_none_iff, hd.keywordAt?_eq_none_iff, hword]

/-! ### Marks in another place -/

/-- Where no mark begins, none begins in another place. -/
theorem NoMark.transfer (hd : d.Sound) {c : Char} (h : d.NoMark before (c :: rest))
    (hctx : d.Interchangeable before before') (htail : tail.head?.all d.endsWord = true) :
    d.NoMark before' (c :: (rest ++ tail)) := by
  rw [hd.noMark_cons_iff] at h ⊢
  intro hout
  obtain ⟨hgroup, hkey⟩ := h (hctx.outside.mpr hout)
  refine ⟨hgroup, fun hstart => ?_⟩
  exact (hd.keywordAt?_append_eq_none_iff (c :: rest) htail).mpr (hkey (hctx.wordStart.mpr hstart))

/-- A plain stretch is plain in another place. -/
theorem Plain.transfer (hd : d.Sound) (h : d.Plain before seg after)
    (hctx : d.Interchangeable before before') (htail : tail.head?.all d.endsWord = true) :
    d.Plain before' seg (after ++ tail) := by
  intro x c y hseg
  rw [← List.append_assoc]
  exact (h x c y hseg).transfer hd (hctx.append x) htail

/-- A mark is a mark in another place. -/
theorem MarkAt.transfer (h : d.MarkAt before kind lexeme after)
    (hctx : d.Interchangeable before before') (htail : tail.head?.all d.endsWord = true) :
    d.MarkAt before' kind lexeme (after ++ tail) := by
  cases h with
  | openGroup _ hout => exact .openGroup _ (hctx.outside.mp hout)
  | closeGroup _ hout => exact .closeGroup _ (hctx.outside.mp hout)
  | operator op hout hstart hend =>
      refine .operator op (hctx.outside.mp hout) (hctx.wordStart.mp hstart) ?_
      cases after with
      | nil => exact htail
      | cons c after => exact hend

end Dialect

open Dialect

/-! ### Tokens moved on -/

/-- The token, moved on by `k` bytes. -/
def Token.shift (k : Nat) (t : Token) : Token :=
  { t with position := t.position + k }

/-- The error, moved on by `k` bytes. -/
def ParseError.shift (k : Nat) (e : ParseError) : ParseError :=
  { e with position := e.position + k }

/-- The result, whose tokens or error are moved on by `k` bytes. -/
def shiftResult {α : Type} (shift : α → α) (k : Nat) (r : Except ParseError α) :
    Except ParseError α :=
  (r.map shift).mapError (ParseError.shift k)

namespace Layout

variable {d : Dialect} {before before' lexeme : Text} {kind : TokenKind} {l more : Layout}
  {ts ts' : List Token} {p : Nat}

/-- The layout with a mark behind it, and another layout behind the mark. -/
def joined : Layout → (kind : TokenKind) → (lexeme : Text) → (more : Layout) → Layout
  | last seg, kind, lexeme, more => mark seg kind lexeme more
  | mark seg kind' lexeme' rest, kind, lexeme, more =>
    mark seg kind' lexeme' (rest.joined kind lexeme more)

@[simp] theorem text_joined (l : Layout) :
    (l.joined kind lexeme more).text = l.text ++ (lexeme ++ more.text) := by
  induction l with
  | last seg => rfl
  | mark seg kind' lexeme' rest ih => simp [joined, text, ih]

/-- **A layout in another place**: if a mark that ends words follows, the marks of the text are
those that it has alone, and those that follow. -/
theorem Valid.joined (hd : d.Sound) (hl : l.Valid d before)
    (hctx : d.Interchangeable before before')
    (hend : (lexeme ++ more.text).head?.all d.endsWord = true)
    (hmark : d.MarkAt (before' ++ l.text) kind lexeme more.text)
    (hmore : more.Valid d (before' ++ l.text ++ lexeme)) :
    (l.joined kind lexeme more).Valid d before' := by
  induction hl generalizing before' with
  | last hplain => exact .mark (by simpa using hplain.transfer hd hctx hend) hmark hmore
  | @mark before seg lexeme' kind' rest hplain hmark' hrest ih =>
      refine .mark ?_ ?_ ?_
      · simpa using hplain.transfer hd hctx hend
      · simpa using hmark'.transfer (hctx.append seg) hend
      · exact ih ((hctx.append seg).append lexeme') (by simpa [text] using hmark)
          (by simpa [text] using hmore)

/-- The tokens of a joined layout are those of the one, the mark, and those of the other. -/
theorem tokens_joined (h : l.tokens d p = .ok ts)
    (hmore : more.tokens d (p + Text.byteSize (l.text ++ lexeme)) = .ok ts') :
    (l.joined kind lexeme more).tokens d p
      = .ok (ts ++ ⟨kind, p + Text.byteSize l.text⟩ :: ts') := by
  induction l generalizing p ts with
  | last seg =>
      obtain ⟨term, hterm, rfl⟩ := tokens_last_eq_ok_iff.mp h
      exact tokens_mark_eq_ok_iff.mpr ⟨term, ts', hterm, hmore, rfl⟩
  | mark seg kind' lexeme' rest ih =>
      obtain ⟨term, ts, hterm, hts, rfl⟩ := tokens_mark_eq_ok_iff.mp h
      have hmore' : more.tokens d
          (p + Text.byteSize (seg ++ lexeme') + Text.byteSize (rest.text ++ lexeme)) = .ok ts' := by
        simpa [text, Nat.add_assoc] using hmore
      refine tokens_mark_eq_ok_iff.mpr ⟨term, _, hterm, ih hts hmore', ?_⟩
      simp [text, Nat.add_assoc]

/-- The first place of a text that is moved on. -/
theorem firstPlace?_shift (p k : Nat) (seg : Text) :
    firstPlace? (p + k) seg = (firstPlace? p seg).map (· + k) := by
  rw [firstPlace?, firstPlace?]
  split
  · rfl
  · simp [Nat.add_right_comm]

/-- The token or the error of a segment that is moved on. -/
theorem readSegment_shift (d : Dialect) (p k : Nat) (seg : Text) :
    d.readSegment (p + k) seg =
      shiftResult (Option.map (Token.shift k)) k (d.readSegment p seg) := by
  rw [readSegment, readSegment]
  split
  · next n hfault => simp [shiftResult, Except.map, Except.mapError, ParseError.shift,
      Nat.add_right_comm]
  · next hfault =>
    split
    · rw [firstPlace?_shift]
      cases firstPlace? p seg <;> rfl
    · simp [shiftResult, Except.map, Except.mapError, ParseError.shift, Nat.add_right_comm]

/-- **The tokens or the error of a layout that is moved on** are moved on. -/
theorem tokens_shift (d : Dialect) (l : Layout) (p k : Nat) :
    l.tokens d (p + k) = shiftResult (List.map (Token.shift k)) k (l.tokens d p) := by
  induction l generalizing p with
  | last seg =>
      rw [tokens_last, tokens_last, readSegment_shift]
      cases d.readSegment p seg with
      | error e => rfl
      | ok term => cases term <;> rfl
  | mark seg kind lexeme more ih =>
      have hread := readSegment_shift d p k seg
      cases hsegment : d.readSegment p seg with
      | error e =>
          rw [hsegment] at hread
          rw [tokens_mark_of_error hsegment, tokens_mark_of_error hread]
          rfl
      | ok term =>
          rw [hsegment] at hread
          rw [tokens_mark_of_ok hsegment, tokens_mark_of_ok hread,
            Nat.add_right_comm p k (Text.byteSize (seg ++ lexeme)), ih]
          cases more.tokens d (p + Text.byteSize (seg ++ lexeme)) with
          | error e => rfl
          | ok ts =>
              cases term <;>
                simp [shiftResult, Except.map, Except.mapError, Token.shift, Nat.add_right_comm]

end Layout

/-! ### Phrases moved on -/

/-- The phrase, moved on by `k` bytes. -/
def Phrase.shift (k : Nat) : Phrase → Phrase
  | .term t position => .term t (position + k)
  | .not position child => .not (position + k) (child.shift k)
  | .and position left right => .and (position + k) (left.shift k) (right.shift k)
  | .or position left right => .or (position + k) (left.shift k) (right.shift k)

/-- The tree of a phrase that is moved on is the same. -/
@[simp] theorem Phrase.node_shift (k : Nat) (p : Phrase) : (p.shift k).node = p.node := by
  induction p with
  | term => rfl
  | not position child ih => simp [shift, node, ih]
  | and position left right ihl ihr => simp [shift, node, ihl, ihr]
  | or position left right ihl ihr => simp [shift, node, ihl, ihr]

/-- **Tokens that are moved on** make up the phrase that is moved on. -/
theorem Derives.shift {level : Level} {ts : List Token} {p : Phrase} (h : Derives level ts p)
    (k : Nat) : Derives level (ts.map (Token.shift k)) (p.shift k) := by
  induction h with
  | or position _ _ ihl ihr =>
      simpa [Token.shift, Phrase.shift] using Derives.or (position + k) ihl ihr
  | ofAnd _ ih => exact .ofAnd ih
  | and position _ _ ihl ihr =>
      simpa [Token.shift, Phrase.shift] using Derives.and (position + k) ihl ihr
  | ofUnary _ ih => exact .ofUnary ih
  | not position _ ih => exact .not (position + k) ih
  | term t position => exact .term t (position + k)
  | group opening closing _ ih =>
      simpa [Token.shift] using Derives.group (opening + k) (closing + k) ih

end BoolQuery
