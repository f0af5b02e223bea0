import BoolQuery.Proofs.Dialect.Renamed
import BoolQuery.Proofs.Query.Alike
import BoolQuery.Proofs.Token.Context
import Mathlib.Data.List.Count

/-!
# Tokens of Renamed Queries

A renamed query has the renamed marks in the renamed dialect, and its segments are the renamed
segments. So its tokens are those of the query, with the same classes, renamed terms, and places
that are those of the same characters. Places are counted in bytes, and a character and its new
name need not have the same number of them: two places belong together if the texts before them
do.

## Main definitions

* `Renaming.SamePlace`: places of the same character.
* `ParseError.Renamed`: errors that say the same about the same character.
* `FieldSpec.rename`, `Term.rename`, `Layout.rename`: renamed fields, terms and layouts.

## Main results

* `Dialect.MarkAt.rename`, `Layout.Valid.rename`: the marks of a renamed query.
* `Dialect.termOf_rename`, `Dialect.readSegment_rename`: the token or the error of a segment.
* `Layout.tokens_rename`: the tokens or the error of a layout.
-/

namespace BoolQuery

open Dialect

/-! ### Marks -/

namespace Dialect

variable (r : Renaming) {d : Dialect} {before seg lexeme after rest t : Text} {kind : TokenKind}

/-- Renaming keeps quotes and all else apart. -/
@[simp] theorem outside_rename : (d.rename r).Outside (t.map r) ↔ d.Outside t := by
  rw [Outside, Outside]
  exact Eq.congr_left (congrArg (· % 2) (List.count_map_of_injective t r r.injective d.quote))

/-- Renaming keeps what is quoted. -/
theorem unquoted_rename {c : Char} :
    (d.rename r).Unquoted (t.map r) (r c) ↔ d.Unquoted t c :=
  and_congr (not_congr (r.apply_eq_iff (c := c) (e := d.quote))) (outside_rename r)

/-- Words begin in the same places. -/
@[simp] theorem wordStart_rename : (d.rename r).WordStart (t.map r) ↔ d.WordStart t := by
  rcases List.eq_nil_or_concat t with rfl | ⟨front, c, rfl⟩
  · exact iff_of_true (.inl rfl) (.inl rfl)
  · rw [List.concat_eq_append, List.map_append, List.map_singleton, wordStart_append_singleton,
      wordStart_append_singleton, unquoted_rename, r.isBlank_apply, isGrouping_rename]

/-- The text up to the next character that ends words. -/
theorem word_rename (t : Text) : (t.map r).takeWhile (!(d.rename r).endsWord ·)
    = (t.takeWhile (!d.endsWord ·)).map r :=
  r.takeWhile_map (fun _ => congrArg (!·) (endsWord_rename r)) t

/-- **A renamed mark** is a mark of the renamed query. -/
theorem MarkAt.rename (h : d.MarkAt before kind lexeme after) :
    (d.rename r).MarkAt (before.map r) kind (lexeme.map r) (after.map r) := by
  cases h with
  | openGroup _ hout => exact .openGroup _ ((outside_rename r).mpr hout)
  | closeGroup _ hout => exact .closeGroup _ ((outside_rename r).mpr hout)
  | operator op hout hstart hend =>
      rw [← keyword_rename]
      refine .operator op ((outside_rename r).mpr hout) ((wordStart_rename r).mpr hstart) ?_
      cases after with
      | nil => rfl
      | cons c after => simpa using hend

/-- The kind of a mark is like itself: it has no term in it. -/
theorem MarkAt.kind_like {L : Term → Term → Prop} (h : d.MarkAt before kind lexeme after) :
    kind.Like L kind := by
  cases h with
  | openGroup => exact .openGroup
  | closeGroup => exact .closeGroup
  | operator op => exact .operator op

/-- Where no mark begins, no mark of the renamed query begins. -/
theorem NoMark.rename (hd : d.Sound) {c : Char} (h : d.NoMark before (c :: rest)) :
    (d.rename r).NoMark (before.map r) (r c :: rest.map r) := by
  rw [hd.noMark_cons_iff] at h
  rw [(hd.rename r).noMark_cons_iff, outside_rename, isGrouping_rename, wordStart_rename]
  intro hout
  obtain ⟨hgroup, hkeyword⟩ := h hout
  refine ⟨hgroup, fun hstart => ?_⟩
  have hnone := (hd.keywordAt?_eq_none_iff).mp (hkeyword hstart)
  refine (hd.rename r).keywordAt?_eq_none_iff.mpr fun op => ?_
  rw [← List.map_cons, word_rename, keyword_rename]
  exact mt (fun heq => r.map_injective heq) (hnone op)

/-- A plain stretch is plain after renaming. -/
theorem Plain.rename (hd : d.Sound) (h : d.Plain before seg after) :
    (d.rename r).Plain (before.map r) (seg.map r) (after.map r) := by
  intro x c y hseg
  obtain ⟨x, rest, rfl, rfl, hrest⟩ := List.map_eq_append_iff.mp hseg
  obtain ⟨c, y, rfl, rfl, rfl⟩ := List.map_eq_cons_iff.mp hrest
  rw [← List.map_append, ← List.map_append]
  exact (h x c y rfl).rename r hd

end Dialect

/-! ### Fields -/

namespace FieldSpec

variable (r : Renaming) {d : Dialect}

/-- The specification with all its parts renamed. -/
def rename (f : FieldSpec) : FieldSpec where
  name := f.name.map r
  operator := f.operator.map (List.map r)
  modifier := f.modifier.map (List.map r)

/-- A part of a renamed text. -/
theorem part?_rename (t : Text) : part? (d.rename r) (t.map r)
    = (part? d t).map (Prod.map (List.map r) (List.map r)) := by
  have htest : ∀ c, (!(d.rename r).isFieldBracket (r c)) = !d.isFieldBracket c :=
    fun _ => congrArg (!·) (isFieldBracket_rename r)
  rw [part?, part?, r.takeWhile_map htest, r.dropWhile_map htest]
  cases t.takeWhile (fun c => !d.isFieldBracket c) <;> rfl

/-- A bracketed part of a renamed text. -/
theorem section?_rename (p : BracketPair) (t : Text) : section? (d.rename r) (p.rename r) (t.map r)
    = (section? d p t).map (Prod.map (Option.map (List.map r)) (List.map r)) := by
  cases t with
  | nil => rfl
  | cons c rest =>
      simp only [section?, List.map_cons, BracketPair.rename, r.apply_eq_iff, part?_rename]
      split
      · cases part? d rest with
        | none => rfl
        | some cut =>
            obtain ⟨part, after⟩ := cut
            cases after with
            | nil => rfl
            | cons e after =>
                simp only [Option.map_some, Prod.map, List.map_cons, r.apply_eq_iff]
                split <;> rfl
      · rfl

/-- **The specification in a renamed text** is the renamed one. -/
theorem ofText?_rename (t : Text) :
    ofText? (d.rename r) (t.map r) = (ofText? d t).map (rename r) := by
  have hmodifier : (d.rename r).modifier = d.modifier.rename r := rfl
  have hoperator : (d.rename r).fieldOperator = d.fieldOperator.rename r := rfl
  rw [ofText?, ofText?, part?_rename, hmodifier, hoperator]
  cases part? d t with
  | none => rfl
  | some cut =>
      obtain ⟨name, rest⟩ := cut
      simp only [Option.map_some, Prod.map, section?_rename]
      cases section? d d.modifier rest with
      | none => rfl
      | some cut =>
          obtain ⟨modifier, rest⟩ := cut
          simp only [Option.map_some, Prod.map, section?_rename]
          cases section? d d.fieldOperator rest with
          | none => rfl
          | some cut =>
              obtain ⟨operator, rest⟩ := cut
              cases rest <;> rfl

end FieldSpec

/-! ### Terms -/

/-- The term with all its texts renamed. -/
def Term.rename (r : Renaming) (t : Term) : Term where
  value := t.value.map r
  field := t.field.map (List.map r)
  operator := t.operator.map (List.map r)
  modifier := t.modifier.map (List.map r)

namespace Dialect

variable (r : Renaming) {d : Dialect} {seg : Text}

/-- A character is the quote exactly if its new name is the new quote. -/
theorem bne_quote_rename (c : Char) : (r c != (d.rename r).quote) = (c != d.quote) := by
  simp [Dialect.rename, bne, beq_eq_decide]

/-- A renamed segment is cut at the same delimiter. -/
theorem splitField?_rename (seg : Text) : (d.rename r).splitField? (seg.map r)
    = (d.splitField? seg).map (Prod.map (List.map r) (List.map r)) := by
  have htest : ∀ c, (r c != (d.rename r).fieldDelimiter && r c != (d.rename r).quote)
      = (c != d.fieldDelimiter && c != d.quote) := by
    intro c
    rw [bne_quote_rename]
    simp [Dialect.rename, bne, beq_eq_decide]
  rw [splitField?, splitField?, r.takeWhile_map htest, r.dropWhile_map htest]
  cases seg.dropWhile (fun c => c != d.fieldDelimiter && c != d.quote) with
  | nil => rfl
  | cons c value =>
      have hdelimiter : r c = (d.rename r).fieldDelimiter ↔ c = d.fieldDelimiter := r.apply_eq_iff
      simp only [List.map_cons, hdelimiter]
      split <;> rfl

/-- The quotes of a renamed text are the renamed quotes. -/
theorem unquote_rename (t : Text) : (d.rename r).unquote (t.map r) = (d.unquote t).map r := by
  rw [unquote, unquote, List.filter_map]
  exact congrArg (fun p => (t.filter p).map r) (funext (bne_quote_rename r))

/-- The value of a renamed segment. -/
theorem valueOf_rename (seg : Text) :
    (d.rename r).valueOf (seg.map r) = (d.valueOf seg).map r := by
  have hpart : (d.rename r).valuePart (seg.map r) = (d.valuePart seg).map r := by
    rw [valuePart, valuePart, splitField?_rename]
    cases d.splitField? seg <;> rfl
  rw [valueOf, valueOf, hpart, r.trim_map, unquote_rename]

/-- The field of a renamed segment. -/
theorem fieldOf?_rename (seg : Text) :
    (d.rename r).fieldOf? (seg.map r) = (d.fieldOf? seg).map (FieldSpec.rename r) := by
  rw [fieldOf?, fieldOf?, splitField?_rename]
  cases d.splitField? seg with
  | none => rfl
  | some cut =>
      simp only [Option.map_some, Option.bind_some, Prod.map, r.trim_map]
      exact FieldSpec.ofText?_rename r cut.1.trim

/-- **The term of a renamed segment** is the renamed term. -/
theorem termOf_rename (seg : Text) :
    (d.rename r).termOf (seg.map r) = (d.termOf seg).rename r := by
  rw [termOf, termOf, valueOf_rename, fieldOf?_rename]
  cases d.fieldOf? seg <;> rfl

/-- The text in front of the last quote of a renamed text. -/
theorem beforeLastQuote_rename (t : Text) :
    (d.rename r).beforeLastQuote (t.map r) = (d.beforeLastQuote t).map r := by
  rw [beforeLastQuote, beforeLastQuote, ← List.map_reverse, r.dropWhile_map (bne_quote_rename r),
    ← List.map_drop, List.map_reverse]

end Dialect

/-! ### Places -/

/-- The places `n` of the text `q` and `n'` of the renamed text are those of the same character. -/
def Renaming.SamePlace (r : Renaming) (q : Text) (n n' : Nat) : Prop :=
  ∃ before c after, q = before ++ c :: after ∧ n = Text.byteSize before ∧
    n' = Text.byteSize (before.map r)

/-- The errors say the same about the same character of the query `q` and of the renamed query. -/
structure ParseError.Renamed (r : Renaming) (q : Text) (e e' : ParseError) : Prop where
  /-- What is wrong. -/
  fault : e'.fault = e.fault
  /-- The places. -/
  place : r.SamePlace q e.position e'.position
  /-- The characters there. -/
  character : e'.character = e.character.map r

variable (r : Renaming) {d : Dialect} {before seg after q : Text} {p p' : Nat}

/-- Whether a segment is at fault is not changed by renaming, nor is its delimiter. -/
theorem Dialect.fieldFault?_rename (d : Dialect) (seg : Text) :
    d.fieldFault? seg = none ∧ (d.rename r).fieldFault? (seg.map r) = none ∨
      ∃ spec value, seg = spec ++ d.fieldDelimiter :: value ∧
        d.fieldFault? seg = some (Text.byteSize spec) ∧
        (d.rename r).fieldFault? (seg.map r) = some (Text.byteSize (spec.map r)) := by
  rw [fieldFault?, fieldFault?, splitField?_rename]
  cases hsplit : d.splitField? seg with
  | none => exact .inl ⟨rfl, rfl⟩
  | some cut =>
      obtain ⟨spec, value⟩ := cut
      simp only [Option.map_some, Prod.map, r.trim_map, FieldSpec.ofText?_rename, Option.isNone_map,
        r.all_isBlank_map]
      split
      · exact .inr ⟨spec, value, (splitField?_eq_some_iff.mp hsplit).1, rfl, rfl⟩
      · exact .inl ⟨rfl, rfl⟩

/-- The first place of a renamed text is that of the same character. -/
theorem firstPlace?_rename (p p' : Nat) (seg : Text) :
    firstPlace? p seg = none ∧ firstPlace? p' (seg.map r) = none ∨
      ∃ lead c rest, seg = lead ++ c :: rest ∧
        firstPlace? p seg = some (p + Text.byteSize lead) ∧
        firstPlace? p' (seg.map r) = some (p' + Text.byteSize (lead.map r)) := by
  rw [firstPlace?, firstPlace?, r.all_isBlank_map, r.takeWhile_map r.isBlank_apply]
  split
  · exact .inl ⟨rfl, rfl⟩
  · next hblank =>
    cases hdrop : seg.dropWhile Text.isBlank with
    | nil => exact absurd (by simpa using hdrop) hblank
    | cons c rest =>
        refine .inr ⟨seg.takeWhile Text.isBlank, c, rest, ?_, rfl, rfl⟩
        rw [← hdrop, List.takeWhile_append_dropWhile]

/-- The token is the renamed one of the query `q`, at the same character. -/
abbrev Token.Renamed (r : Renaming) (q : Text) : Token → Token → Prop :=
  Token.Like (ParseError.Renamed r q) fun t t' => t' = t.rename r

/-- A token at the same character. -/
theorem Token.Renamed.mk {kind kind' : TokenKind} {n n' : Nat}
    (hkind : kind.Like (fun t t' => t' = t.rename r) kind') (hplace : r.SamePlace q n n') :
    Token.Renamed r q ⟨kind, n⟩ ⟨kind', n'⟩ :=
  ⟨hkind, fun _ => ⟨rfl, hplace, rfl⟩⟩

/-- **The token or the error of a renamed segment** of a query is the renamed one. -/
theorem Dialect.readSegment_rename (hq : q = before ++ (seg ++ after)) :
    Alike (ParseError.Renamed r q) (Option.Rel (Token.Renamed r q))
      (d.readSegment (Text.byteSize before) seg)
      ((d.rename r).readSegment (Text.byteSize (before.map r)) (seg.map r)) := by
  subst hq
  rw [readSegment, readSegment]
  rcases fieldFault?_rename r d seg with ⟨hfault, hfault'⟩ | ⟨spec, value, rfl, hfault, hfault'⟩
  · rw [hfault, hfault']
    simp only [outside_rename]
    split
    · refine .ok ?_
      rcases firstPlace?_rename r (Text.byteSize before) (Text.byteSize (before.map r)) seg with
        ⟨hplace, hplace'⟩ | ⟨lead, c, rest, rfl, hplace, hplace'⟩
      · rw [hplace, hplace']
        exact .none
      · rw [hplace, hplace']
        refine .some (.mk r (.term (termOf_rename r _)) ⟨before ++ lead, c, rest ++ after, ?_⟩)
        simp
    · next hout =>
      obtain ⟨front, rest, rfl, hrest⟩ := exists_last_quote (quote_mem_of_not_outside hout)
      refine .error ⟨rfl, ⟨before ++ front, d.quote, rest ++ after, ?_⟩, rfl⟩
      rw [beforeLastQuote_rename, beforeLastQuote_append hrest]
      simp
  · rw [hfault, hfault']
    refine .error ⟨rfl, ⟨before ++ spec, d.fieldDelimiter, value ++ after, ?_⟩, rfl⟩
    simp

/-! ### Layouts -/

namespace Layout

/-- The layout with all its texts renamed. -/
def rename (r : Renaming) : Layout → Layout
  | last seg => last (seg.map r)
  | mark seg kind lexeme more => mark (seg.map r) kind (lexeme.map r) (more.rename r)

@[simp] theorem text_rename (l : Layout) : (l.rename r).text = l.text.map r := by
  induction l with
  | last seg => rfl
  | mark seg kind lexeme more ih => simp [rename, text, ih]

/-- **The renamed layout has the marks of the renamed text.** -/
theorem Valid.rename {l : Layout} (hd : d.Sound) (hl : l.Valid d before) :
    (l.rename r).Valid (d.rename r) (before.map r) := by
  induction hl with
  | last hplain => exact .last (hplain.rename r hd)
  | @mark before seg lexeme kind more hplain hmark hmore ih =>
      refine .mark ?_ ?_ ?_
      · simpa using hplain.rename r hd
      · simpa using hmark.rename r
      · simpa using ih

/-- **The tokens or the error of a renamed layout** of a part of a query are the renamed ones. -/
theorem tokens_rename {l : Layout} (hd : d.Sound) (hl : l.Valid d before)
    (hq : q = before ++ l.text) : Alike (ParseError.Renamed r q) (List.Forall₂ (Token.Renamed r q))
      (l.tokens d (Text.byteSize before))
      ((l.rename r).tokens (d.rename r) (Text.byteSize (before.map r))) := by
  have hoption : ∀ t t', Option.Rel (Token.Renamed r q) t t' →
      List.Forall₂ (Token.Renamed r q) t.toList t'.toList := by
    rintro _ _ (ht | -)
    · exact .cons ht .nil
    · exact .nil
  induction hl with
  | @last before seg hplain =>
      have hseg : q = before ++ (seg ++ []) := by simpa [text] using hq
      rw [rename, tokens_last, tokens_last]
      exact (readSegment_rename r hseg).map hoption
  | @mark before seg lexeme kind more hplain hmark hmore ih =>
      have hseg : q = before ++ (seg ++ (lexeme ++ more.text)) := hq
      have hrest : Alike (ParseError.Renamed r q) (List.Forall₂ (Token.Renamed r q))
          (more.tokens d (Text.byteSize before + Text.byteSize (seg ++ lexeme)))
          ((more.rename r).tokens (d.rename r)
            (Text.byteSize (before.map r) + Text.byteSize (seg.map r ++ lexeme.map r))) := by
        simpa [Nat.add_assoc] using ih (by simpa [text] using hq)
      have hplace : r.SamePlace q (Text.byteSize before + Text.byteSize seg)
          (Text.byteSize (before.map r) + Text.byteSize (seg.map r)) := by
        obtain ⟨c, rest, rfl⟩ := List.exists_cons_of_ne_nil (hd.ne_nil_of_markAt hmark)
        exact ⟨before ++ seg, c, rest ++ more.text, by simpa using hseg, by simp, by simp⟩
      rw [rename, tokens, tokens]
      refine (readSegment_rename r hseg).bind fun t t' ht => hrest.bind fun ts ts' hts => .ok ?_
      exact List.rel_append (hoption t t' ht) (.cons (.mk r hmark.kind_like hplace) hts)

end Layout

end BoolQuery
