import BoolQuery.Proofs.Query.Grouping
import BoolQuery.Proofs.Query.RoundTrip
import BoolQuery.Proofs.Token.Context

/-!
# Queries Made of Queries

A query in parentheses means what it means alone. So queries can be put together as texts: with
the keyword of negation in front of a query in parentheses, or another keyword between two of
them, the result is read as the tree that has the operator above the trees of the parts. The only
exception is a tree that would have one level too many. It is refused at the operator.

## Main definitions

* `Dialect.grouped`, `Dialect.combined`: queries in parentheses, and two of them with a keyword
  between them.
* `Readable`: what it means for the steps of reading that a query is read as a tree.
* `treeOrTooDeep`: the result of reading when only the number of levels is in doubt.

## Main results

* `Balance.neutral_of_check`: a query that passes the bracket check is neutral.
* `Readable.grouped`: the tokens of a query in parentheses.
* `parse_of_derives`: a tree that has at most one level too many is read, or refused at its root.
* `parse_composed`: reading queries made of queries.
-/

namespace BoolQuery

open Dialect

/-- The query in parentheses. -/
def Dialect.grouped (d : Dialect) (q : Text) : Text :=
  d.group.opening :: (q ++ [d.group.closing])

/-- Two queries in parentheses, with the keyword of an operator between them. -/
def Dialect.combined (d : Dialect) (op : Operator) (q₁ q₂ : Text) : Text :=
  d.grouped q₁ ++ ' ' :: (d.keyword op ++ ' ' :: d.grouped q₂)

variable {d : Dialect} {q q₁ q₂ t before lead : Text} {n n₁ n₂ : Node} {p : Phrase}
  {ts ts' : List Token} {position : Nat}

/-! ### The bracket check inside a query -/

namespace Balance

variable {b b' : Balance} {c : Char}

/-- The state with more brackets waiting, outside of all that wait already. -/
def inside (outer : List OpenBracket) (b : Balance) : Balance :=
  { b with pending := b.pending ++ outer }

/-- A character that is accepted is accepted inside more brackets. -/
theorem step_inside (h : step d b c = .ok b') (outer : List OpenBracket) :
    step d (b.inside outer) c = .ok (b'.inside outer) := by
  have hbracket : ∀ mid, b.bracket d c = .ok mid →
      (b.inside outer).bracket d c = .ok (mid.inside outer) := by
    intro mid hmid
    rw [bracket] at hmid ⊢
    split at hmid
    · exact congrArg _ (congrArg _ (Except.ok.inj hmid))
    · obtain rfl := Except.ok.inj hmid
      rfl
    · next kind _ =>
      obtain ⟨top, rest, hpending, hkind, rfl⟩ := close_eq_ok_iff.mp hmid
      exact close_eq_ok_iff.mpr ⟨top, rest ++ outer, by simp [inside, hpending], hkind, rfl⟩
  rw [step] at h ⊢
  split at h
  · next hquote =>
    obtain rfl := Except.ok.inj h
    rw [if_pos hquote]
    rfl
  · next hquote =>
    rw [if_neg hquote]
    split at h
    · next hin =>
      obtain rfl := Except.ok.inj h
      exact if_pos hin
    · next hin =>
      cases hmid : b.bracket d c with
      | error e => rw [hmid] at h; cases h
      | ok mid =>
          rw [hmid] at h
          obtain rfl := Except.ok.inj h
          have hin : ¬ (b.inside outer).inQuote = true := hin
          rw [if_neg hin, hbracket mid hmid]
          rfl

/-- A text that is accepted is accepted inside more brackets. -/
theorem run_inside (h : t.foldlM (step d) b = .ok b') (outer : List OpenBracket) :
    t.foldlM (step d) (b.inside outer) = .ok (b'.inside outer) := by
  induction t generalizing b with
  | nil => exact congrArg _ (congrArg _ (Except.ok.inj h))
  | cons c t ih =>
      obtain ⟨mid, hstep, hrest⟩ := foldlM_cons_eq_ok_iff.mp h
      rw [foldlM_cons_of_ok (step_inside hstep outer)]
      exact ih hrest

/-- **A query that passes the bracket check is neutral**: it passes it in any place, inside any
brackets. -/
theorem neutral_of_check (hout : d.Outside t) (h : checkBalance d t = .ok ()) : Neutral d t := by
  obtain ⟨b, hrun, hfinish⟩ := bind_eq_ok_iff.mp h
  have hpending : b.pending = [] := by
    rw [finish] at hfinish
    split at hfinish
    · assumption
    · cases hfinish
  intro start hstart
  -- the run from the place of `start`, but with no brackets waiting
  have hmoved : Alike (fun _ _ => True) _ (t.foldlM (step d) {})
      (t.foldlM (step d) { offset := start.offset }) :=
    run_like ⟨rfl, .nil⟩ fun _ _ _ _ _ _ => trivial
  rw [hrun] at hmoved
  obtain ⟨b', hrun', hlike⟩ := hmoved.exists_ok rfl
  have hpending' : b'.pending = [] := by
    have := hlike.like.pending
    rw [hpending] at this
    cases hb' : b'.pending with
    | nil => rfl
    | cons => rw [hb'] at this; cases this
  have hbegin : ({ offset := start.offset } : Balance).inQuote = true ↔ ¬ d.Outside [] := by simp
  have hquote : b'.inQuote = false := by simpa [hout] using inQuote_run hbegin hrun'
  have hinside := run_inside hrun' start.pending
  obtain ⟨offset, inQuote, pending⟩ := start
  obtain rfl : inQuote = false := hstart
  have hend : b'.inside pending = ⟨offset + Text.byteSize t, false, pending⟩ := by
    simp [inside, hpending', hquote, hlike.right]
  rw [← hend]
  simpa [inside] using hinside

end Balance

/-! ### A query in parentheses -/

/-- What it means for the steps of reading that the query `q` is read as the tree of the phrase
`p`: how the query is laid out, and what its tokens are. -/
structure Readable (d : Dialect) (q : Text) (l : Layout) (ts : List Token) (p : Phrase) :
    Prop where
  /-- The layout is one of the query. -/
  text : l.text = q
  /-- The layout has the marks of the query. -/
  valid : l.Valid d []
  /-- The tokens are those of the layout. -/
  tokens : l.tokens d 0 = .ok ts
  /-- The tokens make up the phrase. -/
  derives : Derives .or ts p
  /-- The tree is not too deep. -/
  depth : p.node.depth ≤ maxDepth
  /-- The query has an even number of quotes. -/
  outside : d.Outside q
  /-- The query passes the bracket check, in any place. -/
  neutral : Balance.Neutral d q

/-- A query that is read as a tree goes through all steps of reading. -/
theorem exists_readable (hd : d.Sound) (h : d.parse q = .ok ⟨some n⟩) :
    ∃ l ts p, Readable d q l ts p ∧ p.node = n := by
  obtain ⟨hcheck, ts, hts, ⟨-, hQ⟩ | ⟨p, hp, hdepth, hQ⟩⟩ := parse_eq_ok_iff.mp h
  · cases hQ
  obtain ⟨l, hl, rfl, hscan⟩ := exists_layout hd q
  have hout := ((tokenize_isOk_iff hd).mp ⟨ts, hts⟩).1
  rw [tokenize_eq_ok_iff, hscan] at hts
  have hnode : p.node = n := by simpa [eq_comm] using hQ
  exact ⟨l, ts, p, ⟨rfl, hl, hts, hp, hdepth, hout, Balance.neutral_of_check hout hcheck⟩, hnode⟩

namespace Layout

/-- The layout of a query in parentheses, in front of another layout. -/
def grouped (d : Dialect) (l rest : Layout) : Layout :=
  .mark [] .openGroup [d.group.opening] (l.joined .closeGroup [d.group.closing] rest)

end Layout

namespace Readable

variable {l rest : Layout}

/-- A query in parentheses has the marks of the query and its parentheses. -/
theorem valid_grouped (hd : d.Sound) (h : Readable d q l ts p) (hout : d.Outside before)
    (hrest : rest.Valid d (before ++ d.grouped q)) : (Layout.grouped d l rest).Valid d before := by
  obtain rfl := h.text
  have hopen : d.Outside (before ++ [d.group.opening]) := (Layout.outside_opening hd).mpr hout
  have hstart : d.WordStart (before ++ [d.group.opening]) :=
    wordStart_append_singleton.mpr ⟨⟨hd.opening_ne_quote, hout⟩, .inr isGrouping_opening⟩
  refine .mark plain_nil (by simpa using .openGroup _ hout) ?_
  rw [List.append_nil]
  refine h.valid.joined hd (interchangeable_nil hopen hstart) ?_ ?_ ?_
  · simp [endsWord, isGrouping]
  · exact .closeGroup _ (hopen.append_iff.mpr h.outside)
  · simpa [Dialect.grouped] using hrest

/-- The tokens of a query in parentheses, also with white space in front: those of the query, moved
on, between those of the parentheses. They make up the same tree. -/
theorem tokens_grouped (hd : d.Sound) (h : Readable d q l ts p)
    (hlead : lead.all Text.isBlank = true)
    (hrest : rest.tokens d (position + Text.byteSize (lead ++ d.grouped q)) = .ok ts') :
    ∃ ts p', Derives .unary ts p' ∧ p'.node = p.node ∧
      ((Layout.grouped d l rest).prepend lead).tokens d position = .ok (ts ++ ts') := by
  obtain rfl := h.text
  -- the place at which the query itself begins
  obtain ⟨start, hstart⟩ : ∃ start, start = position + Text.byteSize (lead ++ [d.group.opening]) :=
    ⟨_, rfl⟩
  have hinner : l.tokens d start = .ok (ts.map (Token.shift start)) := by
    have hshift := Layout.tokens_shift d l 0 start
    rwa [Nat.zero_add, h.tokens] at hshift
  have hafter : rest.tokens d (start + Text.byteSize (l.text ++ [d.group.closing])) = .ok ts' := by
    simpa [hstart, Dialect.grouped, Nat.add_assoc] using hrest
  refine ⟨_, p.shift start, .group (position + Text.byteSize lead) (start + Text.byteSize l.text)
    (h.derives.shift start), p.node_shift start, ?_⟩
  rw [Layout.grouped, Layout.prepend, List.append_nil, Layout.tokens_mark_of_blank hd hlead,
    ← hstart]
  exact ⟨_, Layout.tokens_joined hinner hafter, by simp⟩

/-- **A query in parentheses is a written form of its tree.** -/
theorem writes_grouped (hd : d.Sound) (h : Readable d q l ts p) :
    Layout.Writes d (Layout.grouped d l) (d.grouped q) p.node where
  text rest := by simp [Layout.grouped, Layout.text, Dialect.grouped, h.text]
  valid before rest hout _ _ hrest := h.valid_grouped hd hout hrest
  tokens position lead rest hlead _ hrest := by
    obtain ⟨ts', hts'⟩ := hrest (position + Text.byteSize (lead ++ d.grouped q))
    obtain ⟨ts, p', hp', hnode, htokens⟩ := h.tokens_grouped hd hlead hts'
    exact ⟨ts, p', _, ts', hp', hnode, hts', htokens⟩
  outside := by
    have hopen : d.Outside [d.group.opening] :=
      outside_of_notMem (by simpa using hd.opening_ne_quote.symm)
    have hclose : d.quote ∉ [d.group.closing] := by simpa using hd.closing_ne_quote.symm
    exact (outside_append_of_notMem hclose).mpr (hopen.append_iff.mpr h.outside)
  neutral := h.neutral.bracketed hd .group

end Readable

/-! ### Trees with one level too many -/

/-- The result of reading the query `q` as the tree `n`, whose root is at `position`: the tree,
or, if it has too many levels, an error at its root. -/
def treeOrTooDeep (q : Text) (n : Node) (position : Nat) : Except ParseError Query :=
  if n.depth ≤ maxDepth then .ok ⟨some n⟩
  else .error (ParseError.inQuery { fault := .tooDeep, position } q)

/-- **What a query is read as whose tree has at most one level too many**, by its layout. -/
theorem parse_of_derives (hd : d.Sound) {l : Layout} (hl : l.Valid d [])
    (hneutral : Balance.Neutral d l.text) (htokens : l.tokens d 0 = .ok ts)
    (hp : Derives .or ts p) (hdepth : p.node.depth ≤ maxDepth + 1) :
    d.parse l.text = treeOrTooDeep l.text p.node p.root.position := by
  rw [← scan_text hd hl] at htokens
  have hsteps : d.parse l.text = inQuery l.text (buildTree p.postorder) := by
    rw [parse, hneutral.check]
    change inQuery l.text (scan d l.text >>= fun ts => toPostfix ts >>= buildTree) = _
    rw [htokens]
    change inQuery l.text (toPostfix ts >>= buildTree) = _
    rw [hp.toPostfix]
    rfl
  rw [hsteps, treeOrTooDeep]
  split
  · next hle => rw [Phrase.buildTree_postorder hle]; rfl
  · next hlt =>
    rw [Phrase.buildTree_postorder_root (Nat.le_antisymm hdepth (Nat.lt_of_not_ge hlt))]
    rfl

/-! ### Queries made of queries -/

/-- Nothing more has no tokens. -/
theorem Layout.tokens_end (hd : d.Sound) (position : Nat) :
    (Layout.last []).tokens d position = .ok [] :=
  tokens_last_of_blank hd rfl position

namespace Readable

variable {l l₁ l₂ : Layout} {ts₁ ts₂ : List Token} {p₁ p₂ : Phrase} {op : Operator}

/-- **A negated query** is read as the negated tree, with its operator at the start. -/
theorem parse_negated (hd : d.Sound) (h : Readable d q l ts p) :
    d.parse (d.keyword .not ++ ' ' :: d.grouped q)
      = treeOrTooDeep (d.keyword .not ++ ' ' :: d.grouped q) (.not p.node) 0 := by
  have hwrites := (h.writes_grouped hd).not hd
  have htext := hwrites.text (.last [])
  have hvalid := hwrites.valid [] (.last []) outside_nil (.inl rfl) rfl (.last plain_nil)
  have hblank : [' '].all Text.isBlank = true := rfl
  obtain ⟨ts, p', hp', hnode, htokens⟩ := h.tokens_grouped hd hblank
    (Layout.tokens_end hd (Text.byteSize (d.keyword .not) + Text.byteSize ([' '] ++ d.grouped q)))
  have hall : (Layout.mark [] (.operator .not) (d.keyword .not)
      ((Layout.grouped d l (.last [])).prepend [' '])).tokens d 0
      = .ok (⟨.operator .not, 0⟩ :: ts) :=
    (Layout.tokens_mark_of_blank hd rfl).mpr ⟨ts, by simpa using htokens, rfl⟩
  rw [Layout.text, List.append_nil] at htext
  rw [← htext, ← hnode]
  exact parse_of_derives hd hvalid (htext ▸ hwrites.neutral) hall
    (.ofAnd (.ofUnary (.not 0 hp'))) (Nat.succ_le_succ (hnode ▸ h.depth))

/-- The layout of two queries in parentheses, with the keyword of an operator between them, and
its tokens: the operator stands between tokens that make up the two trees. -/
theorem exists_layout_combined (hd : d.Sound) (h₁ : Readable d q₁ l₁ ts₁ p₁)
    (h₂ : Readable d q₂ l₂ ts₂ p₂) (op : Operator) :
    ∃ (l : Layout) (lts rts : List Token) (p q : Phrase),
      l.text = d.combined op q₁ q₂ ∧ l.Valid d [] ∧
      Balance.Neutral d (d.combined op q₁ q₂) ∧ Derives .unary lts p ∧ Derives .unary rts q ∧
      p.node = p₁.node ∧ q.node = p₂.node ∧
      l.tokens d 0
        = .ok (lts ++ ⟨.operator op, Text.byteSize (d.grouped q₁ ++ [' '])⟩ :: rts) := by
  have hleft := h₁.writes_grouped hd
  have hright := h₂.writes_grouped hd
  have hblank : [' '].all Text.isBlank = true := rfl
  -- the layout is built from its end: the second query, the keyword, the first query
  have hkeyword : d.Outside (d.grouped q₁ ++ [' '] ++ d.keyword op) :=
    (Layout.outside_keyword hd op).mpr hleft.outside
  have hsecond : (Layout.grouped d l₂ (.last [])).Valid d
      (d.grouped q₁ ++ [' '] ++ d.keyword op ++ [' ']) :=
    h₂.valid_grouped hd ((Layout.outside_space hd).mpr hkeyword) (.last plain_nil)
  have hmiddle := Layout.Valid.mark (plain_of_blank hd hblank)
    (.operator op ((Layout.outside_space hd).mpr hleft.outside)
      (Layout.wordStart_space hd hleft.outside) (by simp [Layout.endsWord_space]))
    (hsecond.prepend (plain_of_blank hd hblank))
  have hvalid := h₁.valid_grouped hd outside_nil hmiddle
  -- and so are its tokens
  obtain ⟨rts, q, hq, hqn, hrts⟩ := h₂.tokens_grouped hd hblank (Layout.tokens_end hd
    (Text.byteSize (d.grouped q₁) + Text.byteSize ([' '] ++ d.keyword op)
      + Text.byteSize ([' '] ++ d.grouped q₂)))
  have hnext : (Layout.mark [' '] (.operator op) (d.keyword op)
      ((Layout.grouped d l₂ (.last [])).prepend [' '])).tokens d
        (0 + Text.byteSize ([] ++ d.grouped q₁))
      = .ok (⟨.operator op, Text.byteSize (d.grouped q₁ ++ [' '])⟩ :: rts) :=
    (Layout.tokens_mark_of_blank hd hblank).mpr ⟨rts, by simpa using hrts, by simp⟩
  have hnil : ([] : Text).all Text.isBlank = true := rfl
  obtain ⟨lts, p, hp, hpn, hlts⟩ := h₁.tokens_grouped hd hnil hnext
  refine ⟨_, lts, rts, p, q, ?_, hvalid, ?_, hp, hq, hpn, hqn, by simpa using hlts⟩
  · simp [hleft.text, hright.text, Layout.text, Dialect.combined]
  · have hspace : Balance.Neutral d [' '] := Balance.neutral_of_blank hd hblank
    have hall := hleft.neutral.append (hspace.append ((Balance.neutral_keyword hd op).append
      (hspace.append hright.neutral)))
    simpa [Dialect.combined] using hall

/-- **Two queries joined by an operator** are read as the tree that `node` makes of their trees,
if a phrase with the operator at its root denotes this tree. -/
theorem parse_combined (hd : d.Sound) (h₁ : Readable d q₁ l₁ ts₁ p₁)
    (h₂ : Readable d q₂ l₂ ts₂ p₂) {node : Node → Node → Node}
    (hdepth : ∀ m n, (node m n).depth = max m.depth n.depth + 1)
    (hnode : ∀ position lts rts p q, Derives .unary lts p → Derives .unary rts q →
      ∃ r, Derives .or (lts ++ ⟨.operator op, position⟩ :: rts) r ∧
        r.node = node p.node q.node ∧ r.root.position = position) :
    d.parse (d.combined op q₁ q₂) = treeOrTooDeep (d.combined op q₁ q₂) (node p₁.node p₂.node)
      (Text.byteSize (d.grouped q₁ ++ [' '])) := by
  obtain ⟨l, lts, rts, p, q, htext, hl, hneutral, hp, hq, hpn, hqn, htokens⟩ :=
    h₁.exists_layout_combined hd h₂ op
  obtain ⟨r, hr, hrn, hposition⟩ := hnode _ lts rts p q hp hq
  rw [hpn, hqn] at hrn
  have hle : r.node.depth ≤ maxDepth + 1 := by
    rw [hrn, hdepth]
    exact Nat.succ_le_succ (max_le h₁.depth h₂.depth)
  rw [← htext] at hneutral ⊢
  rw [parse_of_derives hd hl hneutral htokens hr hle, hrn, hposition]

end Readable

/-- **Reading is compositional.** If two queries are read as trees, then the first one in
parentheses is read as its tree, behind the keyword of negation as the negated tree, and with
another keyword and the second one in parentheses behind it as the joined tree. If the new tree
has too many levels, the error is at its operator. -/
theorem parse_composed (hd : d.check = .ok ()) (h₁ : d.parse q₁ = .ok ⟨some n₁⟩)
    (h₂ : d.parse q₂ = .ok ⟨some n₂⟩) :
    d.parse (d.grouped q₁) = .ok ⟨some n₁⟩ ∧
    d.parse (d.keyword .not ++ ' ' :: d.grouped q₁)
      = treeOrTooDeep (d.keyword .not ++ ' ' :: d.grouped q₁) (.not n₁) 0 ∧
    d.parse (d.combined .and q₁ q₂) = treeOrTooDeep (d.combined .and q₁ q₂) (.and n₁ n₂)
      (Text.byteSize (d.grouped q₁ ++ [' '])) ∧
    d.parse (d.combined .or q₁ q₂) = treeOrTooDeep (d.combined .or q₁ q₂) (.or n₁ n₂)
      (Text.byteSize (d.grouped q₁ ++ [' '])) := by
  have hd := check_eq_ok_iff.mp hd
  obtain ⟨l₁, ts₁, p₁, hr₁, rfl⟩ := exists_readable hd h₁
  obtain ⟨l₂, ts₂, p₂, hr₂, rfl⟩ := exists_readable hd h₂
  refine ⟨parse_of_writes hd (hr₁.writes_grouped hd) hr₁.depth, hr₁.parse_negated hd, ?_, ?_⟩
  · refine hr₁.parse_combined hd hr₂ (fun m n => rfl) fun position lts rts p q hp hq => ?_
    exact ⟨.and position p q, .ofAnd (.and position (.ofUnary hp) hq), rfl, rfl⟩
  · refine hr₁.parse_combined hd hr₂ (fun m n => rfl) fun position lts rts p q hp hq => ?_
    exact ⟨.or position p q, .or position (.ofAnd (.ofUnary hp)) (.ofUnary hq), rfl, rfl⟩

/-- `a OR "(" ` and `NOT f:x` are read alone, and put together. -/
theorem parse_composed_quoted :
    Dialect.standard.check = .ok () ∧
    Dialect.standard.parse "a OR \"(\" ".toList
      = .ok ⟨some (.or (.term { value := "a".toList }) (.term { value := "(".toList }))⟩ ∧
    Dialect.standard.parse "NOT f:x".toList
      = .ok ⟨some (.not (.term { value := "x".toList, field := some "f".toList }))⟩ ∧
    Dialect.standard.parse "(a OR \"(\" ) AND (NOT f:x)".toList
      = .ok ⟨some (.and (.or (.term { value := "a".toList }) (.term { value := "(".toList }))
          (.not (.term { value := "x".toList, field := some "f".toList })))⟩ := by
  have h₁ : Dialect.standard.parse "a OR \"(\" ".toList
      = .ok ⟨some (.or (.term { value := "a".toList }) (.term { value := "(".toList }))⟩ := by
    decide +kernel
  have h₂ : Dialect.standard.parse "NOT f:x".toList
      = .ok ⟨some (.not (.term { value := "x".toList, field := some "f".toList }))⟩ := by
    decide +kernel
  exact ⟨rfl, h₁, h₂, (parse_composed rfl h₁ h₂).2.2.1⟩

end BoolQuery
