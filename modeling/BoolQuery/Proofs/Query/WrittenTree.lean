import BoolQuery.Proofs.Grammar
import BoolQuery.Proofs.Query.WrittenTerm
import BoolQuery.Proofs.Token.Layout

/-!
# The Layout of a Written Tree

The canonical text of a tree has the tree's own structure: where the tree has an operator, the
text has its keyword, and parentheses around the whole if it has two operands. So its layout can
be written down along the tree, in front of the layout of whatever follows, and the tokens of
this layout make up the tree again.

## Main definitions

* `Layout.infixed`, `Node.layout`: the layout of a written tree in front of another layout.
* `Layout.Writes`: what it means that a text is a written form of a tree.

## Main results

* `Layout.writes_term`, `Layout.Writes.not`, `Layout.Writes.infixed`: one case for each kind of
  node.
* `Node.writes`: the canonical text is a written form of its tree.
-/

namespace BoolQuery

open Dialect

namespace Layout

variable {d : Dialect} {op : Operator} {left right : Layout → Layout} {s t : Text} {m n : Node}

/-- The layout of two operands and the keyword between them, in parentheses. -/
def infixed (d : Dialect) (op : Operator) (left right : Layout → Layout) (rest : Layout) :
    Layout :=
  .mark [] .openGroup [d.group.opening] (left (.mark [' '] (.operator op) (d.keyword op)
    ((right (.mark [] .closeGroup [d.group.closing] rest)).prepend [' '])))

/-- The text `t` is a written form of the tree `n`: put in front of a text that ends words, where
a word may begin, its layout is `write`, and its tokens make up the tree. -/
structure Writes (d : Dialect) (write : Layout → Layout) (t : Text) (n : Node) : Prop where
  /-- The layout is one of the text and what follows. -/
  text : ∀ rest, (write rest).text = t ++ rest.text
  /-- The layout has the marks of the text. -/
  valid : ∀ before rest, d.Outside before → d.WordStart before →
    rest.text.head?.all d.endsWord = true → rest.Valid d (before ++ t) →
    (write rest).Valid d before
  /-- The tokens of the layout, also with white space in front, begin with those of the tree. -/
  tokens : ∀ position lead rest, lead.all Text.isBlank = true → rest.first.all Text.isBlank = true →
    (∀ p, ∃ ts, rest.tokens d p = .ok ts) →
    ∃ ts p position' ts', Derives .unary ts p ∧ p.node = n ∧
      rest.tokens d position' = .ok ts' ∧
      ((write rest).prepend lead).tokens d position = .ok (ts ++ ts')
  /-- The text has an even number of quotes. -/
  outside : d.Outside t
  /-- The text passes the bracket check. -/
  neutral : Balance.Neutral d t

/-- **A written term.** -/
theorem writes_term (hd : d.Sound) {term : Term} (h : term.Writable d) :
    Writes d (prepend (term.canonical d)) (term.canonical d) (.term term) where
  text rest := text_prepend rest _
  valid before rest hout _ hafter hrest := hrest.prepend (h.plain hd hout hafter)
  tokens position lead rest hlead hblank hrest := by
    obtain ⟨place, hread⟩ := h.readSegment hd hlead hblank position
    obtain ⟨ts', hts'⟩ := hrest (position + Text.byteSize (lead ++ term.canonical d))
    refine ⟨[⟨.term term, place⟩], .term term place, _, ts', .term term place, rfl, hts', ?_⟩
    have hprepend : (rest.prepend (term.canonical d)).prepend lead
        = rest.prepend (lead ++ term.canonical d) := by
      cases rest <;> simp [prepend]
    rw [hprepend]
    exact tokens_prepend hd hblank (by simpa using hread) hts'
  outside := h.outside hd
  neutral := h.neutral hd

/-- A space ends words. -/
theorem endsWord_space (d : Dialect) : d.endsWord ' ' = true := by
  rw [endsWord, show Text.isBlank ' ' = true from rfl]
  rfl

/-- A space is not the quote. -/
theorem quote_ne_space (hd : d.Sound) : d.quote ≠ ' ' := by
  simpa using hd.quote_notMem_of_blank (t := [' ']) rfl

/-- Behind a space outside quotes a word begins. -/
theorem wordStart_space (hd : d.Sound) {before : Text} (hout : d.Outside before) :
    d.WordStart (before ++ [' ']) :=
  wordStart_append_singleton.mpr ⟨⟨(quote_ne_space hd).symm, hout⟩, .inl rfl⟩

/-- A space does not change what is quoted. -/
theorem outside_space (hd : d.Sound) {before : Text} :
    d.Outside (before ++ [' ']) ↔ d.Outside before :=
  outside_append_of_notMem (hd.quote_notMem_of_blank rfl)

/-- **A written negation.** -/
theorem Writes.not (hd : d.Sound) {child : Layout → Layout} (h : Writes d child t n) :
    Writes d (fun rest => .mark [] (.operator .not) (d.keyword .not) ((child rest).prepend [' ']))
      (d.keyword .not ++ ' ' :: t) (.not n) where
  text rest := by simp [Layout.text, h.text]
  valid before rest hout hstart hafter hrest := by
    have hkeyword : d.Outside (before ++ d.keyword .not) :=
      (outside_append_of_notMem (hd.quote_notMem_keyword .not)).mpr hout
    have hchild := h.valid (before ++ d.keyword .not ++ [' ']) rest
      ((outside_space hd).mpr hkeyword) (wordStart_space hd hkeyword) hafter (by simpa using hrest)
    refine .mark plain_nil ?_ ?_
    · rw [List.append_nil]
      exact .operator .not hout hstart (by simp [endsWord_space])
    · rw [List.append_nil]
      exact hchild.prepend (plain_of_blank hd rfl)
  tokens position lead rest hlead hblank hrest := by
    obtain ⟨ts, p, position', ts', hp, rfl, hts', htokens⟩ :=
      h.tokens (position + Text.byteSize (lead ++ d.keyword .not)) [' '] rest rfl hblank hrest
    refine ⟨⟨.operator .not, position + Text.byteSize lead⟩ :: ts,
      .not (position + Text.byteSize lead) p, position', ts', .not _ hp, rfl, hts', ?_⟩
    rw [prepend, List.append_nil, tokens_mark_of_blank hd hlead]
    exact ⟨_, htokens, rfl⟩
  outside := by
    have hquote : d.quote ∉ d.keyword .not ++ [' '] := by
      simp [hd.quote_notMem_keyword, quote_ne_space hd]
    rw [List.append_cons, (outside_of_notMem hquote).append_iff]
    exact h.outside
  neutral := by
    rw [List.append_cons]
    exact ((Balance.neutral_keyword hd .not).append (Balance.neutral_of_blank hd rfl)).append
      h.neutral

/-! ### Two operands in parentheses -/

/-- An opening parenthesis does not change what is quoted. -/
theorem outside_opening (hd : d.Sound) {before : Text} :
    d.Outside (before ++ [d.group.opening]) ↔ d.Outside before :=
  outside_append_of_notMem (by simpa using hd.opening_ne_quote.symm)

/-- A keyword between spaces does not change what is quoted. -/
theorem outside_keyword (hd : d.Sound) (op : Operator) {before : Text} :
    d.Outside (before ++ [' '] ++ d.keyword op) ↔ d.Outside before := by
  rw [outside_append_of_notMem (hd.quote_notMem_keyword op), outside_space hd]

/-- Two operands in parentheses have an even number of quotes if each of them has. -/
theorem outside_infixed (hd : d.Sound) (hs : d.Outside s) (ht : d.Outside t) :
    d.Outside (d.infixed op s t) := by
  have hopen : d.Outside [d.group.opening] :=
    outside_of_notMem (by simpa using hd.opening_ne_quote.symm)
  have hleft : d.Outside ([d.group.opening] ++ s) := hopen.append_iff.mpr hs
  have hkeyword := (outside_space hd).mpr ((outside_keyword hd op).mpr hleft)
  have hclose : d.quote ∉ [d.group.closing] := by simpa using hd.closing_ne_quote.symm
  have hall := (outside_append_of_notMem hclose).mpr (hkeyword.append_iff.mpr ht)
  simpa [Dialect.infixed] using hall

/-- Two operands in parentheses pass the bracket check if each of them does. -/
theorem neutral_infixed (hd : d.Sound) (hs : Balance.Neutral d s) (ht : Balance.Neutral d t) :
    Balance.Neutral d (d.infixed op s t) := by
  have hspace : Balance.Neutral d [' '] := Balance.neutral_of_blank hd rfl
  have hkeyword := (hspace.append (Balance.neutral_keyword hd op)).append hspace
  have hinner := hs.append (hkeyword.append ht)
  have htext : d.infixed op s t = (d.pair .group).opening
      :: (s ++ ([' '] ++ d.keyword op ++ [' '] ++ t) ++ [(d.pair .group).closing]) := by
    simp [Dialect.infixed, pair]
  rw [htext]
  exact hinner.bracketed hd .group

/-- The layout of two operands in parentheses has the marks of its text, because each operand
stands where a word may begin and in front of a text that ends words. -/
theorem Writes.valid_infixed (hd : d.Sound) (hl : Writes d left s m) (hr : Writes d right t n)
    {before : Text} {rest : Layout} (hout : d.Outside before)
    (hrest : rest.Valid d (before ++ d.infixed op s t)) :
    (Layout.infixed d op left right rest).Valid d before := by
  have hopen : d.Outside (before ++ [d.group.opening]) := (outside_opening hd).mpr hout
  have hopenStart : d.WordStart (before ++ [d.group.opening]) :=
    wordStart_append_singleton.mpr ⟨⟨hd.opening_ne_quote, hout⟩, .inr isGrouping_opening⟩
  have hleft : d.Outside (before ++ [d.group.opening] ++ s) := hopen.append_iff.mpr hl.outside
  have hkeyword : d.Outside (before ++ [d.group.opening] ++ s ++ [' '] ++ d.keyword op) :=
    (outside_keyword hd op).mpr hleft
  have hright : d.Outside
      (before ++ [d.group.opening] ++ s ++ [' '] ++ d.keyword op ++ [' '] ++ t) :=
    ((outside_space hd).mpr hkeyword).append_iff.mpr hr.outside
  have hclosing : d.endsWord d.group.closing = true := by simp [endsWord, isGrouping]
  -- the last mark first: the layout is built from its end
  have hclose : (mark [] .closeGroup [d.group.closing] rest).Valid d
      (before ++ [d.group.opening] ++ s ++ [' '] ++ d.keyword op ++ [' '] ++ t) := by
    refine .mark plain_nil ?_ (by simpa [Dialect.infixed] using hrest)
    rw [List.append_nil]
    exact .closeGroup _ hright
  have hsecond := hr.valid _ _ ((outside_space hd).mpr hkeyword) (wordStart_space hd hkeyword)
    (by simpa [Layout.text] using hclosing) hclose
  have hmiddle := Valid.mark (plain_of_blank hd rfl)
    (.operator op ((outside_space hd).mpr hleft) (wordStart_space hd hleft)
      (by simp [endsWord_space])) (hsecond.prepend (plain_of_blank hd rfl))
  refine .mark plain_nil (by simpa using .openGroup _ hout) ?_
  rw [List.append_nil]
  exact hl.valid _ _ hopen hopenStart (by simp [Layout.text, endsWord_space]) hmiddle

/-- The tokens of two operands in parentheses are those of the operands, with the operator
between them and the parentheses around them. -/
theorem Writes.tokens_infixed (hd : d.Sound) (hl : Writes d left s m) (hr : Writes d right t n)
    (op : Operator) (position : Nat) {lead : Text} {rest : Layout}
    (hlead : lead.all Text.isBlank = true) (hrest : ∀ p, ∃ ts, rest.tokens d p = .ok ts) :
    ∃ lts rts p q middle closing position' ts', Derives .unary lts p ∧ Derives .unary rts q ∧
      p.node = m ∧ q.node = n ∧ rest.tokens d position' = .ok ts' ∧
      ((Layout.infixed d op left right rest).prepend lead).tokens d position
        = .ok (⟨.openGroup, position + Text.byteSize lead⟩ ::
            (lts ++ ⟨.operator op, middle⟩ :: rts ++ [⟨.closeGroup, closing⟩]) ++ ts') := by
  -- what follows each of the two operands has tokens at any place
  have hclose : ∀ p, ∃ ts, (mark [] .closeGroup [d.group.closing] rest).tokens d p = .ok ts := by
    intro p
    obtain ⟨ts, hts⟩ := hrest (p + Text.byteSize ([] ++ [d.group.closing]))
    exact ⟨_, (tokens_mark_of_blank hd rfl).mpr ⟨ts, hts, rfl⟩⟩
  have hmiddle : ∀ p, ∃ ts, (mark [' '] (.operator op) (d.keyword op)
      ((right (mark [] .closeGroup [d.group.closing] rest)).prepend [' '])).tokens d p
        = .ok ts := by
    intro p
    obtain ⟨ts, _, _, ts', -, -, -, htokens⟩ :=
      hr.tokens (p + Text.byteSize ([' '] ++ d.keyword op)) [' '] _ rfl rfl hclose
    exact ⟨_, (tokens_mark_of_blank hd rfl).mpr ⟨_, htokens, rfl⟩⟩
  obtain ⟨lts, p, place, ts₁, hp, hpm, hts₁, hleft⟩ :=
    hl.tokens (position + Text.byteSize (lead ++ [d.group.opening])) [] _ rfl rfl hmiddle
  obtain ⟨ts₂, hts₂, rfl⟩ := (tokens_mark_of_blank hd rfl).mp hts₁
  obtain ⟨rts, q, place', ts₃, hq, hqn, hts₃, hright⟩ :=
    hr.tokens (place + Text.byteSize ([' '] ++ d.keyword op)) [' '] _ rfl rfl hclose
  obtain rfl := Except.ok.inj (hts₂.symm.trans hright)
  obtain ⟨ts', hts', rfl⟩ := (tokens_mark_of_blank hd rfl).mp hts₃
  refine ⟨lts, rts, p, q, place + Text.byteSize [' '], place' + Text.byteSize [], _, ts', hp, hq,
    hpm, hqn, hts', ?_⟩
  rw [prepend_nil] at hleft
  rw [Layout.infixed, prepend, List.append_nil, tokens_mark_of_blank hd hlead]
  exact ⟨_, hleft, by simp⟩

/-- **A written conjunction or disjunction.** -/
theorem Writes.infixed (hd : d.Sound) (hl : Writes d left s m) (hr : Writes d right t n)
    {node : Node}
    (hnode : ∀ position lts rts p q, Derives .unary lts p → Derives .unary rts q → p.node = m →
      q.node = n → ∃ r, Derives .or (lts ++ ⟨.operator op, position⟩ :: rts) r ∧ r.node = node) :
    Writes d (Layout.infixed d op left right) (d.infixed op s t) node where
  text rest := by simp [Layout.infixed, Layout.text, hl.text, hr.text, Dialect.infixed]
  valid before rest hout _ _ hrest := hl.valid_infixed hd hr hout hrest
  tokens position lead rest hlead _ hrest := by
    obtain ⟨lts, rts, p, q, middle, closing, position', ts', hp, hq, hpm, hqn, hts', htokens⟩ :=
      hl.tokens_infixed hd hr op position hlead hrest
    obtain ⟨r, hr, hrnode⟩ := hnode middle lts rts p q hp hq hpm hqn
    exact ⟨_, r, position', ts', .group (position + Text.byteSize lead) closing hr, hrnode, hts',
      htokens⟩
  outside := outside_infixed hd hl.outside hr.outside
  neutral := neutral_infixed hd hl.neutral hr.neutral

end Layout

/-- The layout of a written tree in front of another layout. -/
def Node.layout (d : Dialect) : Node → Layout → Layout
  | .term t => Layout.prepend (t.canonical d)
  | .not child => fun rest =>
    .mark [] (.operator .not) (d.keyword .not) ((child.layout d rest).prepend [' '])
  | .and left right => Layout.infixed d .and (left.layout d) (right.layout d)
  | .or left right => Layout.infixed d .or (left.layout d) (right.layout d)

/-- **The canonical text is a written form of its tree**, if its terms can be written. -/
theorem Node.writes {d : Dialect} (hd : d.Sound) {n : Node} (h : ∀ t ∈ n.terms, t.Writable d) :
    Layout.Writes d (n.layout d) (n.canonical d) n := by
  induction n with
  | term t => exact Layout.writes_term hd (h t (by simp [terms]))
  | not child ih => exact (ih h).not hd
  | and left right ihl ihr =>
      have hl := ihl fun t ht => h t (List.mem_append_left _ ht)
      have hr := ihr fun t ht => h t (List.mem_append_right _ ht)
      refine hl.infixed hd hr ?_
      rintro position lts rts p q hp hq rfl rfl
      exact ⟨.and position p q, .ofAnd (.and position (.ofUnary hp) hq), rfl⟩
  | or left right ihl ihr =>
      have hl := ihl fun t ht => h t (List.mem_append_left _ ht)
      have hr := ihr fun t ht => h t (List.mem_append_right _ ht)
      refine hl.infixed hd hr ?_
      rintro position lts rts p q hp hq rfl rfl
      exact ⟨.or position p q, .or position (.ofAnd (.ofUnary hp)) (.ofUnary hq), rfl⟩

end BoolQuery
