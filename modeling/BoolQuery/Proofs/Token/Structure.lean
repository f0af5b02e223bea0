import BoolQuery.Proofs.Token.Scan
import BoolQuery.Query.Parse

/-!
# The Tokens of a Query

When a query can be cut into tokens, each token can be found without reading the query from its
start: grouping characters and keywords are where they stand outside quotes, keywords as whole
words, and between two of them there is one term if there is anything but white space.

## Main results

* `Layout.mem_tokens_iff`: a token comes from a segment or from a mark.
* `Layout.tokens_ordered`: tokens come in the order of their places.
* `Layout.filter_tokens`: the only token in a segment is its term.
* `Layout.mem_tokens_group_iff`, `Layout.mem_tokens_operator_iff`: the tokens that are not terms,
  one kind at a time.
* `tokenize_structure`: the local description of the tokens.
-/

namespace BoolQuery

open Dialect

variable {d : Dialect} {before seg after x : Text} {p place : Nat} {term : Option Token}
  {t : Token} {ts : List Token} {l tail : Layout}

namespace Layout

/-! ### The tokens of a layout -/

/-- **A token comes from a segment or from a mark.** -/
theorem mem_tokens_iff (h : l.tokens d p = .ok ts) : t ∈ ts ↔
    (∃ x tail, Tail l x tail ∧ d.readSegment (p + Text.byteSize x) tail.first = .ok (some t)) ∨
    ∃ x seg kind lexeme more, Tail l x (.mark seg kind lexeme more) ∧
      t = ⟨kind, p + Text.byteSize (x ++ seg)⟩ := by
  induction l generalizing p ts with
  | last seg =>
      obtain ⟨term, hterm, rfl⟩ := tokens_last_eq_ok_iff.mp h
      simp [tail_last_iff, first, hterm, eq_comm]
  | mark seg kind lexeme more ih =>
      obtain ⟨term, rest, hterm, hrest, rfl⟩ := tokens_mark_eq_ok_iff.mp h
      rw [List.mem_append, List.mem_cons, ih hrest]
      constructor
      · rintro (hmem | rfl | ⟨x, tail, htail, hread⟩ | ⟨x, s, k, lx, m, htail, rfl⟩)
        · refine .inl ⟨[], _, .all _, ?_⟩
          simpa [first, hterm, eq_comm] using hmem
        · exact .inr ⟨[], seg, kind, lexeme, more, .all _, by simp⟩
        · refine .inl ⟨seg ++ lexeme ++ x, tail, .later htail, ?_⟩
          simpa [Nat.add_assoc] using hread
        · exact .inr ⟨seg ++ lexeme ++ x, s, k, lx, m, .later htail, by simp [Nat.add_assoc]⟩
      · rintro (⟨x, tail, htail, hread⟩ | ⟨x, s, k, lx, m, htail, rfl⟩)
        · rcases tail_mark_iff.mp htail with ⟨rfl, rfl⟩ | ⟨y, rfl, hlater⟩
          · left
            simpa [first, hterm, eq_comm] using hread
          · refine .inr (.inr (.inl ⟨y, tail, hlater, ?_⟩))
            simpa [Nat.add_assoc] using hread
        · rcases tail_mark_iff.mp htail with ⟨rfl, heq⟩ | ⟨y, rfl, hlater⟩
          · cases heq
            exact .inr (.inl (by simp))
          · exact .inr (.inr (.inr ⟨y, s, k, lx, m, hlater, by simp [Nat.add_assoc]⟩))

/-- **Tokens come in the order of their places**, which are inside the text. -/
theorem tokens_ordered (hd : d.Sound) (hl : l.Valid d before) (h : l.tokens d p = .ok ts) :
    (∀ t ∈ ts, p ≤ t.position ∧ t.position < p + Text.byteSize l.text) ∧
      ts.Pairwise (·.position < ·.position) := by
  induction hl generalizing p ts with
  | last hplain =>
      obtain ⟨term, hterm, rfl⟩ := tokens_last_eq_ok_iff.mp h
      cases term with
      | none => simp
      | some t => simpa [text] using readSegment_bounds hterm
  | @mark before seg lexeme kind more hplain hmark hmore ih =>
      obtain ⟨term, rest, hterm, hrest, rfl⟩ := tokens_mark_eq_ok_iff.mp h
      obtain ⟨hbounds, hpairwise⟩ := ih hrest
      have hpos := hd.byteSize_pos_of_markAt hmark
      have hfirst : ∀ t ∈ term.toList, p ≤ t.position ∧ t.position < p + Text.byteSize seg := by
        intro t ht
        rw [Option.mem_toList] at ht
        exact readSegment_bounds (ht ▸ hterm)
      have hsize : Text.byteSize (seg ++ (lexeme ++ more.text))
          = Text.byteSize seg + Text.byteSize lexeme + Text.byteSize more.text := by
        simp [Nat.add_assoc]
      rw [Text.byteSize_append] at hbounds
      constructor
      · rw [text, hsize]
        intro t ht
        rcases List.mem_append.mp ht with ht | ht
        · have := hfirst t ht
          omega
        · rcases List.mem_cons.mp ht with rfl | ht
          · dsimp only
            omega
          · have := hbounds t ht
            omega
      · refine List.pairwise_append.mpr ⟨?_, List.pairwise_cons.mpr ⟨?_, hpairwise⟩, ?_⟩
        · cases term <;> simp
        · intro t ht
          have := hbounds t ht
          dsimp only
          omega
        · intro t ht t' ht'
          have := hfirst t ht
          rcases List.mem_cons.mp ht' with rfl | ht'
          · exact this.2
          · have := hbounds t' ht'
            omega

/-- The tokens of a layout begin with that of the first segment; the others come behind it. -/
theorem tokens_of_first (hd : d.Sound) (hl : l.Valid d before) (h : l.tokens d p = .ok ts) :
    ∃ term rest, d.readSegment p l.first = .ok term ∧ ts = term.toList ++ rest ∧
      ∀ t ∈ rest, p + Text.byteSize l.first ≤ t.position := by
  cases hl with
  | last hplain =>
      obtain ⟨term, hterm, rfl⟩ := tokens_last_eq_ok_iff.mp h
      exact ⟨term, [], hterm, by simp, by simp⟩
  | @mark _ seg lexeme kind more hplain hmark hmore =>
      obtain ⟨term, rest, hterm, hrest, rfl⟩ := tokens_mark_eq_ok_iff.mp h
      refine ⟨term, _, hterm, rfl, ?_⟩
      intro t ht
      rcases List.mem_cons.mp ht with rfl | ht
      · exact Nat.le_refl _
      · have := (tokens_ordered hd hmore hrest).1 t ht
        simp only [Text.byteSize_append] at this
        dsimp only [first]
        omega

/-- The tokens in front of a tail come before it. -/
theorem tokens_of_tail (hd : d.Sound) (hl : l.Valid d before) (htail : Tail l x tail)
    (h : l.tokens d p = .ok ts) :
    ∃ front rest, ts = front ++ rest ∧ tail.tokens d (p + Text.byteSize x) = .ok rest ∧
      ∀ t ∈ front, t.position < p + Text.byteSize x := by
  induction htail generalizing before p ts with
  | all l => exact ⟨[], ts, rfl, by simpa using h, by simp⟩
  | @later seg lexeme x kind more tail _ ih =>
      obtain ⟨term, rest, hterm, hrest, rfl⟩ := tokens_mark_eq_ok_iff.mp h
      cases hl with
      | mark _ hmark hmore =>
          obtain ⟨front, rest, rfl, htokens, hfront⟩ := ih hmore hrest
          refine ⟨term.toList ++ ⟨kind, p + Text.byteSize seg⟩ :: front, rest, by simp,
            by simpa [Nat.add_assoc] using htokens, ?_⟩
          have hpos := hd.byteSize_pos_of_markAt hmark
          simp only [Text.byteSize_append] at hfront ⊢
          intro t ht
          rcases List.mem_append.mp ht with ht | ht
          · rw [Option.mem_toList] at ht
            have := readSegment_bounds (ht ▸ hterm)
            omega
          · rcases List.mem_cons.mp ht with rfl | ht
            · dsimp only
              omega
            · have := hfront t ht
              omega

/-- **The only token in a segment is its term.** -/
theorem filter_tokens (hd : d.Sound) (hl : l.Valid d before) (htail : Tail l x tail)
    (h : l.tokens d p = .ok ts) :
    ts.filter (fun t => p + Text.byteSize x ≤ t.position ∧
        t.position < p + Text.byteSize (x ++ tail.first))
      = (firstPlace? (p + Text.byteSize x) tail.first).toList.map
          (⟨.term (d.termOf tail.first), ·⟩) := by
  obtain ⟨front, back, rfl, htokens, hfront⟩ := tokens_of_tail hd hl htail h
  obtain ⟨term, rest, hterm, rfl, hrest⟩ := tokens_of_first hd (htail.valid hl) htokens
  have hno : ∀ t ∈ front, ¬ (p + Text.byteSize x ≤ t.position ∧
      t.position < p + Text.byteSize (x ++ tail.first)) := by
    intro t ht hin
    have := hfront t ht
    omega
  have hno' : ∀ t ∈ rest, ¬ (p + Text.byteSize x ≤ t.position ∧
      t.position < p + Text.byteSize (x ++ tail.first)) := by
    intro t ht hin
    have := hrest t ht
    rw [Text.byteSize_append] at hin
    omega
  have hyes : ∀ t ∈ term.toList, p + Text.byteSize x ≤ t.position ∧
      t.position < p + Text.byteSize (x ++ tail.first) := by
    intro t ht
    rw [Option.mem_toList] at ht
    have := readSegment_bounds (ht ▸ hterm)
    rw [Text.byteSize_append]
    omega
  rw [List.filter_append, List.filter_append,
    (List.filter_eq_nil_iff (l := front)).mpr (by simpa using hno),
    (List.filter_eq_nil_iff (l := rest)).mpr (by simpa using hno'),
    (List.filter_eq_self (l := term.toList)).mpr (by simpa using hyes)]
  obtain ⟨-, -, rfl⟩ := readSegment_eq_ok_iff.mp hterm
  cases firstPlace? (p + Text.byteSize x) tail.first <;> rfl

/-- **The tokens that are terms are those of the segments that are not blank.** -/
theorem mem_tokens_term_iff (hd : d.Sound) (hl : l.Valid d before) (h : l.tokens d p = .ok ts)
    {t : Term} : ⟨.term t, place⟩ ∈ ts ↔ ∃ x tail, Tail l x tail ∧
      firstPlace? (p + Text.byteSize x) tail.first = some place ∧ t = d.termOf tail.first := by
  rw [mem_tokens_iff h]
  constructor
  · rintro (⟨x, tail, htail, hread⟩ | ⟨x, seg, kind, lexeme, more, htail, heq⟩)
    · obtain ⟨-, -, hterm⟩ := readSegment_eq_ok_iff.mp hread
      obtain ⟨place', hplace, heq⟩ := Option.map_eq_some_iff.mp hterm.symm
      simp only [Token.mk.injEq, TokenKind.term.injEq] at heq
      exact ⟨x, tail, htail, heq.2 ▸ hplace, heq.1.symm⟩
    · cases htail.valid hl with
      | mark _ hmark _ => exact absurd (Token.mk.inj heq).1.symm (hmark.kind_ne_term t)
  · rintro ⟨x, tail, htail, hplace, rfl⟩
    obtain ⟨_, _, -, htokens, -⟩ := tokens_of_tail hd hl htail h
    obtain ⟨_, _, hterm, -, -⟩ := tokens_of_first hd (htail.valid hl) htokens
    obtain ⟨-, -, rfl⟩ := readSegment_eq_ok_iff.mp hterm
    exact .inl ⟨x, tail, htail, by rw [hterm, hplace]; rfl⟩

/-- **The tokens that are not terms are the marks of the query.** -/
theorem mem_tokens_mark_iff (hd : d.Sound) (hl : l.Valid d []) (h : l.tokens d 0 = .ok ts)
    {kind : TokenKind} (hkind : ∀ t, kind ≠ .term t) :
    ⟨kind, p⟩ ∈ ts ↔ ∃ before lexeme after, l.text = before ++ (lexeme ++ after) ∧
      d.MarkAt before kind lexeme after ∧ p = Text.byteSize before := by
  rw [mem_tokens_iff h]
  constructor
  · rintro (⟨x, tail, -, hread⟩ | ⟨x, seg, k, lexeme, more, htail, heq⟩)
    · obtain ⟨-, -, hterm⟩ := readSegment_eq_ok_iff.mp hread
      obtain ⟨place, -, heq⟩ := Option.map_eq_some_iff.mp hterm.symm
      exact absurd (Token.mk.inj heq).1.symm (hkind _)
    · obtain ⟨rfl, rfl⟩ := Token.mk.inj heq
      cases htail.valid hl with
      | mark _ hmark _ =>
          exact ⟨x ++ seg, lexeme, more.text, by simp [htail.text, text], hmark, by simp⟩
  · rintro ⟨before, lexeme, after, htext, hmark, rfl⟩
    obtain ⟨x, seg, more, htail, rfl, -⟩ := hl.tail_of_markAt hd (x := before) hmark htext
    exact .inr ⟨x, seg, kind, lexeme, more, htail, by simp⟩

/-- **Parentheses are the unquoted grouping characters**, on either side: `c` is the character of
the side, and `kind` the token that it stands for. -/
theorem mem_tokens_group_iff (hd : d.Sound) (hl : l.Valid d []) (h : l.tokens d 0 = .ok ts)
    {kind : TokenKind} {c : Char} (hkind : ∀ t, kind ≠ .term t) (hquote : c ≠ d.quote)
    (hmark : ∀ {before lexeme after}, d.MarkAt before kind lexeme after ↔
      lexeme = [c] ∧ d.Outside before) :
    ⟨kind, p⟩ ∈ ts ↔ ∃ before after, l.text = before ++ c :: after ∧
      d.Unquoted before c ∧ p = Text.byteSize before := by
  rw [mem_tokens_mark_iff hd hl h hkind]
  simp only [hmark]
  constructor
  · rintro ⟨before, _, after, htext, ⟨rfl, hout⟩, hp⟩
    exact ⟨before, after, htext, ⟨hquote, hout⟩, hp⟩
  · rintro ⟨before, after, htext, hc, hp⟩
    exact ⟨before, _, after, htext, ⟨rfl, hc.2⟩, hp⟩

/-- **Operators are the keywords at unquoted characters that stand as whole words.** -/
theorem mem_tokens_operator_iff (hd : d.Sound) (hl : l.Valid d []) (h : l.tokens d 0 = .ok ts)
    {op : Operator} : ⟨.operator op, p⟩ ∈ ts ↔ ∃ before c rest, l.text = before ++ c :: rest ∧
      d.Unquoted before c ∧ d.WordStart before ∧
      (∃ after, c :: rest = d.keyword op ++ after ∧ after.head?.all d.endsWord = true) ∧
      p = Text.byteSize before := by
  rw [mem_tokens_mark_iff hd hl h (by simp)]
  simp only [markAt_operator_iff]
  constructor
  · rintro ⟨before, _, after, htext, ⟨rfl, hout, hstart, hend⟩, hp⟩
    obtain ⟨k, ks, hkw, hk⟩ := hd.exists_keyword_eq_cons op
    obtain ⟨-, -, hquote⟩ := endsWord_eq_false_iff.mp hk
    exact ⟨before, k, ks ++ after, by rw [htext, hkw]; rfl, ⟨hquote, hout⟩, hstart,
      ⟨after, by rw [hkw]; rfl, hend⟩, hp⟩
  · rintro ⟨before, c, rest, htext, hc, hstart, ⟨after, heq, hend⟩, hp⟩
    exact ⟨before, _, after, heq ▸ htext, ⟨rfl, hc.2, hstart, hend⟩, hp⟩

end Layout

/-! ### The tokens of a query -/

/-- Showing errors in place does not change results. -/
theorem inQuery_eq_ok_iff {α : Type} {q : Text} {r : Except ParseError α} {a : α} :
    inQuery q r = .ok a ↔ r = .ok a := by
  rw [inQuery]
  cases r <;> simp [Except.mapError]

/-- The tokens are those of the scan. -/
theorem tokenize_eq_ok_iff {q : Text} : d.tokenize q = .ok ts ↔ scan d q = .ok ts :=
  inQuery_eq_ok_iff

/-- **The local description of the tokens.** Parentheses are the grouping characters that are
not quoted. Operators are the keywords at an unquoted character that stand as whole words. In
every segment between two of these, or between one and an end of the query, the only token is
one term at the first character that is not white space, and there is none if the segment is
blank. There are no other tokens, and tokens come in the order of their places. -/
theorem tokenize_structure (hd : d.check = .ok ()) {q : Text} (h : d.tokenize q = .ok ts) :
    (∀ p, ⟨.openGroup, p⟩ ∈ ts ↔ ∃ before after, q = before ++ d.group.opening :: after ∧
      d.Unquoted before d.group.opening ∧ p = Text.byteSize before) ∧
    (∀ p, ⟨.closeGroup, p⟩ ∈ ts ↔ ∃ before after, q = before ++ d.group.closing :: after ∧
      d.Unquoted before d.group.closing ∧ p = Text.byteSize before) ∧
    (∀ op p, ⟨.operator op, p⟩ ∈ ts ↔ ∃ before c rest, q = before ++ c :: rest ∧
      d.Unquoted before c ∧ d.WordStart before ∧
      (∃ after, c :: rest = d.keyword op ++ after ∧ after.head?.all d.endsWord = true) ∧
      p = Text.byteSize before) ∧
    (∀ before seg, d.SegmentOf q before seg →
      ts.filter (fun t => Text.byteSize before ≤ t.position ∧
          t.position < Text.byteSize (before ++ seg))
        = (firstPlace? (Text.byteSize before) seg).toList.map (⟨.term (d.termOf seg), ·⟩)) ∧
    (∀ t p, ⟨.term t, p⟩ ∈ ts → ∃ before seg, d.SegmentOf q before seg ∧
      Text.byteSize before ≤ p ∧ p < Text.byteSize (before ++ seg)) ∧
    ts.Pairwise (·.position < ·.position) := by
  have hd := check_eq_ok_iff.mp hd
  obtain ⟨l, hl, rfl, hscan⟩ := exists_layout hd q
  rw [tokenize_eq_ok_iff, hscan] at h
  refine ⟨fun p => Layout.mem_tokens_group_iff hd hl h nofun hd.opening_ne_quote
      markAt_openGroup_iff,
    fun p => Layout.mem_tokens_group_iff hd hl h nofun hd.closing_ne_quote markAt_closeGroup_iff,
    fun op p => Layout.mem_tokens_operator_iff hd hl h, ?_, ?_, (Layout.tokens_ordered hd hl h).2⟩
  · intro before seg hseg
    obtain ⟨tail, htail, rfl⟩ := (hl.segmentOf_iff hd).mp hseg
    simpa using Layout.filter_tokens hd hl htail h
  · intro t p hmem
    obtain ⟨x, tail, htail, hplace, -⟩ := (Layout.mem_tokens_term_iff hd hl h).mp hmem
    obtain ⟨hlo, hhi⟩ := firstPlace?_bounds hplace
    exact ⟨x, tail.first, (hl.segmentOf_iff hd).mpr ⟨tail, htail, rfl⟩, by simpa using hlo,
      by simpa using hhi⟩

/-- In `x OR(y) z` the keyword is followed by a grouping character, and both terms around the
group have places of their own. -/
theorem tokenize_group_between_terms :
    Dialect.standard.check = .ok () ∧
    Dialect.standard.tokenize "x OR(y) z".toList
      = .ok [⟨.term { value := ['x'] }, 0⟩, ⟨.operator .or, 2⟩, ⟨.openGroup, 4⟩,
          ⟨.term { value := ['y'] }, 5⟩, ⟨.closeGroup, 6⟩, ⟨.term { value := ['z'] }, 8⟩] ∧
    ∃ before c rest, "x OR(y) z".toList = before ++ c :: rest ∧
      Dialect.standard.Unquoted before c ∧ Dialect.standard.WordStart before ∧
      (∃ after, c :: rest = Dialect.standard.keyword .or ++ after ∧
        after.head?.all Dialect.standard.endsWord = true) ∧ 2 = Text.byteSize before := by
  have htokens : Dialect.standard.tokenize "x OR(y) z".toList
      = .ok [⟨.term { value := ['x'] }, 0⟩, ⟨.operator .or, 2⟩, ⟨.openGroup, 4⟩,
          ⟨.term { value := ['y'] }, 5⟩, ⟨.closeGroup, 6⟩, ⟨.term { value := ['z'] }, 8⟩] := by
    decide +kernel
  exact ⟨rfl, htokens, ((tokenize_structure rfl htokens).2.2.1 .or 2).mp (by decide)⟩

end BoolQuery
