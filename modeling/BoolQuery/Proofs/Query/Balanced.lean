import BoolQuery.Proofs.Brackets
import BoolQuery.Proofs.Query.Grouping
import Mathlib.Data.List.Induction

/-!
# The Bracket Check Decides Balance

The brackets of a query are those of its characters that are read as brackets and stand outside
quotes. The check accepts a query exactly if the row of its brackets is balanced. Otherwise it
reports the first bracket up to which the row is no longer the front of a balanced one, or, if the
whole row is such a front, the last opening bracket that has no match.

The invariant of the check is that the brackets in its state are those that wait in the row that
has been read.

## Main definitions

* `PlacedBracket`, `Dialect.brackets`: the brackets of a query, with their places.
* `Balance.Reads`: the state of the check after a part of the query.
* `Breaks`, `LeavesOpen`: the two ways in which a row of brackets is not balanced.

## Main results

* `Balance.Reads.step`: one character of the check.
* `checkBalance_cases`: the three outcomes of the check.
* `validate_decides_balance`: what the check decides, and where it finds the fault.
-/

namespace BoolQuery

open Dialect

/-! ### The brackets of a query -/

/-- A bracket of a query, with its place. -/
structure PlacedBracket where
  /-- The bracket. -/
  bracket : Bracket
  /-- Its byte offset in the query. -/
  position : Nat
  /-- The character itself. -/
  character : Char
deriving DecidableEq, Repr

namespace PlacedBracket

/-- Every one of them is a bracket. -/
def read (x : PlacedBracket) : Option Bracket :=
  some x.bracket

/-- An opening bracket as one that waits for its closing one. -/
def waiting (x : PlacedBracket) : OpenBracket :=
  ⟨x.bracket.kind, x.position, x.character⟩

/-- The error at a bracket. -/
def error (fault : ParseFault) (x : PlacedBracket) : ParseError :=
  { fault, position := x.position, character := some x.character }

@[simp] theorem filterMap_read (row : List PlacedBracket) :
    row.filterMap read = row.map bracket := by
  rw [← List.filterMap_eq_map]
  rfl

end PlacedBracket

/-- The bracket that the character `c` is behind the text `before`: none inside quotes, or if it
is no bracket. -/
def Dialect.bracketAt? (d : Dialect) (before : Text) (c : Char) : Option PlacedBracket :=
  if d.Outside before then (d.bracket? c).map fun bracket => ⟨bracket, Text.byteSize before, c⟩
  else none

/-- The brackets of a query: its characters that are brackets and have an even number of quotes
before them. -/
def Dialect.brackets (d : Dialect) (q : Text) : List PlacedBracket :=
  q.zipIdx.filterMap fun (c, i) => d.bracketAt? (q.take i) c

variable {d : Dialect} {q before : Text} {c : Char} {b b' : Balance} {e : ParseError}
  {row : List PlacedBracket} {x y : PlacedBracket}

/-- What a character is read as depends only on what stands before it. -/
theorem Dialect.brackets_append_singleton (d : Dialect) (q : Text) (c : Char) :
    d.brackets (q ++ [c]) = d.brackets q ++ (d.bracketAt? q c).toList := by
  have hfront : q.zipIdx.filterMap (fun (c', i) => d.bracketAt? ((q ++ [c]).take i) c')
      = d.brackets q := by
    refine List.filterMap_congr fun (c', i) hmem => ?_
    have hlt : i < q.length := by simpa using (List.mem_zipIdx hmem).2.1
    simp [List.take_append_of_le_length (Nat.le_of_lt hlt)]
  rw [brackets, List.zipIdx_append, List.filterMap_append, hfront]
  cases hc : d.bracketAt? q c <;> simp [hc]

/-! ### The state of the check -/

namespace Balance

/-- The check has read the part `q` of a query. -/
structure Reads (d : Dialect) (q : Text) (b : Balance) : Prop where
  /-- It stands behind that part. -/
  offset : b.offset = Text.byteSize q
  /-- It is in a quoted part exactly inside quotes. -/
  inQuote : b.inQuote = true ↔ ¬ d.Outside q
  /-- The brackets in its state are those that wait. -/
  waits : ∃ waiting, Waits PlacedBracket.read (d.brackets q) waiting ∧
    b.pending = waiting.map PlacedBracket.waiting

theorem reads_nil (d : Dialect) : Reads d [] {} :=
  ⟨rfl, by simp, [], .none .nil, rfl⟩

namespace Reads

/-- **A character that is no bracket outside quotes** leaves the brackets as they are. -/
theorem step_of_none (h : Reads d q b) (hnone : d.bracketAt? q c = none)
    (hstep : Balance.step d b c = .ok b') (hoffset : b'.offset = b.offset + c.utf8Size)
    (hpending : b'.pending = b.pending) : Reads d (q ++ [c]) b' := by
  obtain ⟨waiting, hwaits, hb⟩ := h.waits
  refine ⟨by simp [hoffset, h.offset], inQuote_step h.inQuote hstep, waiting, ?_,
    hpending.trans hb⟩
  rwa [brackets_append_singleton, hnone, Option.toList_none, List.append_nil]

/-- **An opening bracket** begins to wait. -/
theorem step_opening {kind : BracketKind} (h : Reads d q b) (hat : d.bracketAt? q c = some x)
    (hx : x = ⟨⟨kind, .opening⟩, Text.byteSize q, c⟩)
    (hstep : Balance.step d b c
      = .ok ({ b with pending := ⟨kind, b.offset, c⟩ :: b.pending }.pass c)) :
    Reads d (q ++ [c]) ({ b with pending := ⟨kind, b.offset, c⟩ :: b.pending }.pass c) := by
  obtain ⟨waiting, hwaits, hb⟩ := h.waits
  have hread : x.read = some ⟨kind, .opening⟩ := by rw [hx]; rfl
  have hwaits' : Waits PlacedBracket.read (d.brackets q ++ [x]) (x :: waiting) :=
    .opening hwaits hread .nil
  refine ⟨by simp [pass, h.offset], inQuote_step h.inQuote hstep, x :: waiting, ?_, ?_⟩
  · rwa [brackets_append_singleton, hat, Option.toList_some]
  · simp [pass, hb, h.offset, hx, PlacedBracket.waiting]

/-- **A closing bracket** is the match of the bracket that waited last, or nothing makes up for
it. -/
theorem step_closing {kind : BracketKind} (h : Reads d q b) (hat : d.bracketAt? q c = some x)
    (hx : x = ⟨⟨kind, .closing⟩, Text.byteSize q, c⟩)
    (hstep : Balance.step d b c = (b.close kind c).map (·.pass c)) :
    match Balance.step d b c with
    | .ok b' => Reads d (q ++ [c]) b'
    | .error e => ¬ Extendable ((d.brackets q ++ [x]).map PlacedBracket.bracket) ∧
        e = x.error .missingOpen := by
  obtain ⟨waiting, hwaits, hb⟩ := h.waits
  have hread : x.read = some ⟨kind, .closing⟩ := by rw [hx]; rfl
  have herror : x.error .missingOpen
      = { fault := .missingOpen, position := b.offset, character := some c } := by
    rw [hx, h.offset]
    rfl
  cases waiting with
  | nil =>
      have hclose : Balance.step d b c = .error (x.error .missingOpen) := by
        rw [hstep, close, hb, herror]
        rfl
      rw [hclose]
      exact ⟨by simpa using hwaits.not_extendable hread (by simp), rfl⟩
  | cons top waiting =>
      obtain ⟨kind', htop⟩ := hwaits.exists_read
      have hkind' : top.waiting.kind = kind' := congrArg Bracket.kind (Option.some.inj htop)
      by_cases hkind : kind' = kind
      · have hclose : Balance.step d b c
            = .ok ({ b with pending := waiting.map PlacedBracket.waiting }.pass c) := by
          rw [hstep, close, hb, List.map_cons]
          simp [hkind', hkind, Except.map]
        have hin := inQuote_step h.inQuote hclose
        rw [hclose]
        refine ⟨by simp [pass, h.offset], hin, waiting, ?_, rfl⟩
        rw [brackets_append_singleton, hat, Option.toList_some]
        exact hwaits.close (hkind ▸ htop) hread
      · have hclose : Balance.step d b c = .error (x.error .missingOpen) := by
          rw [hstep, close, hb, List.map_cons, herror]
          simp [hkind', hkind, Except.map]
        have hne : ∀ z ∈ (top :: waiting).head?, z.read ≠ some ⟨kind, .opening⟩ := by
          rintro z ⟨⟩ hz
          exact hkind (congrArg Bracket.kind (Option.some.inj (htop.symm.trans hz)))
        rw [hclose]
        exact ⟨by simpa using hwaits.not_extendable hread hne, rfl⟩

/-- **One character of the check.** -/
theorem step (hd : d.Sound) (h : Reads d q b) (c : Char) :
    match Balance.step d b c with
    | .ok b' => Reads d (q ++ [c]) b'
    | .error e => ∃ x, d.bracketAt? q c = some x ∧ x.bracket.side = .closing ∧
        ¬ Extendable ((d.brackets q ++ [x]).map PlacedBracket.bracket) ∧
        e = x.error .missingOpen := by
  by_cases hquote : c = d.quote
  · have hstep : Balance.step d b c = .ok ({ b with inQuote := !b.inQuote }.pass c) :=
      if_pos hquote
    rw [hstep]
    exact h.step_of_none (by simp [bracketAt?, hquote, hd.bracket?_eq_none]) hstep rfl rfl
  by_cases hout : d.Outside q
  · have hin : ¬ b.inQuote = true := fun hin => h.inQuote.mp hin hout
    have hstep : Balance.step d b c = (b.bracket d c).map (·.pass c) := by
      rw [Balance.step, if_neg hquote, if_neg hin]
    have hat : d.bracketAt? q c
        = (d.bracket? c).map fun bracket => ⟨bracket, Text.byteSize q, c⟩ := if_pos hout
    rw [Balance.bracket] at hstep
    cases hbracket : d.bracket? c with
    | none =>
        rw [hbracket] at hstep hat
        rw [hstep]
        exact h.step_of_none hat hstep rfl rfl
    | some bracket =>
        obtain ⟨kind, side⟩ := bracket
        rw [hbracket] at hstep hat
        cases side with
        | opening =>
            rw [hstep]
            exact h.step_opening hat rfl hstep
        | closing =>
            have hclose := h.step_closing hat rfl hstep
            cases hresult : Balance.step d b c with
            | ok b' => rwa [hresult] at hclose
            | error e =>
                rw [hresult] at hclose
                exact ⟨_, hat, rfl, hclose⟩
  · have hstep : Balance.step d b c = .ok (b.pass c) := by
      rw [Balance.step, if_neg hquote, if_pos (h.inQuote.mpr hout)]
    rw [hstep]
    exact h.step_of_none (if_neg hout) hstep rfl rfl

end Reads

end Balance

/-! ### What the check decides -/

/-- The row is the front of a balanced one up to the closing bracket `x`, and not any more
behind it. -/
def Breaks (row : List PlacedBracket) (x : PlacedBracket) : Prop :=
  ∃ before after, row = before ++ x :: after ∧ x.bracket.side = .closing ∧
    Extendable (before.map PlacedBracket.bracket) ∧
    ¬ Extendable ((before ++ [x]).map PlacedBracket.bracket)

/-- The row is the front of a balanced one but not balanced itself, and `x` is the last opening
bracket without a match. -/
def LeavesOpen (row : List PlacedBracket) (x : PlacedBracket) : Prop :=
  Extendable (row.map PlacedBracket.bracket) ∧ ¬ Balanced (row.map PlacedBracket.bracket) ∧
    LastOpen PlacedBracket.read row x

/-- A row that breaks breaks also with more behind it. -/
theorem Breaks.append (h : Breaks row x) (more : List PlacedBracket) :
    Breaks (row ++ more) x := by
  obtain ⟨before, after, rfl, hrest⟩ := h
  exact ⟨before, after ++ more, by simp, hrest⟩

/-- A row that breaks is the front of no balanced one. -/
theorem Breaks.not_extendable (h : Breaks row x) :
    ¬ Extendable (row.map PlacedBracket.bracket) := by
  obtain ⟨before, after, rfl, -, -, hbreak⟩ := h
  intro hrow
  rw [List.append_cons, List.map_append] at hrow
  exact hbreak hrow.of_append

/-- A row breaks only once. -/
theorem Breaks.unique (hx : Breaks row x) (hy : Breaks row y) : x = y := by
  obtain ⟨before, after, rfl, -, hfront, hbreak⟩ := hx
  obtain ⟨before', after', hrow, -, hfront', hbreak'⟩ := hy
  -- what breaks the row further on would have a front that is broken already
  rcases eq_or_behind hrow with heq | ⟨between, rfl, -⟩ | ⟨between, rfl, -⟩
  · exact heq
  · rw [List.append_cons, List.map_append] at hfront'
    exact absurd hfront'.of_append hbreak
  · rw [List.append_cons, List.map_append] at hfront
    exact absurd hfront.of_append hbreak'

/-- **The check of a part of a query** goes on with the brackets that wait, or has found where their
row breaks. -/
theorem Balance.run_cases (hd : d.Sound) (q : Text) :
    (∃ b, q.foldlM (Balance.step d) {} = .ok b ∧ Reads d q b) ∨
      ∃ x, q.foldlM (Balance.step d) {} = .error (x.error .missingOpen) ∧
        Breaks (d.brackets q) x := by
  induction q using List.reverseRecOn with
  | nil => exact .inl ⟨{}, rfl, reads_nil d⟩
  | append_singleton q c ih =>
      rw [brackets_append_singleton]
      rcases ih with ⟨b, hrun, hreads⟩ | ⟨x, hrun, hbreaks⟩
      · rw [foldlM_append_of_ok hrun, foldlM_singleton]
        have hstep := hreads.step hd c
        cases hresult : Balance.step d b c with
        | ok b' =>
            rw [hresult] at hstep
            exact .inl ⟨b', rfl, hstep⟩
        | error e =>
            rw [hresult] at hstep
            obtain ⟨x, hat, hside, hnot, rfl⟩ := hstep
            obtain ⟨waiting, hwaits, -⟩ := hreads.waits
            refine .inr ⟨x, rfl, d.brackets q, [], ?_, hside, ?_, hnot⟩
            · rw [hat, Option.toList_some]
            · simpa using hwaits.extendable
      · exact .inr ⟨x, foldlM_append_of_error hrun _, hbreaks.append _⟩

/-- **The three outcomes of the check.** -/
theorem checkBalance_cases (hd : d.Sound) (q : Text) :
    (checkBalance d q = .ok () ∧ Balanced ((d.brackets q).map PlacedBracket.bracket)) ∨
      (∃ x, checkBalance d q = .error (x.error .missingOpen) ∧ Breaks (d.brackets q) x) ∨
      ∃ x, checkBalance d q = .error (x.error .missingClose) ∧ LeavesOpen (d.brackets q) x := by
  rcases Balance.run_cases hd q with ⟨b, hrun, hreads⟩ | ⟨x, hrun, hbreaks⟩
  · have hcheck : checkBalance d q = b.finish := by
      rw [checkBalance, hrun]
      rfl
    obtain ⟨waiting, hwaits, hpending⟩ := hreads.waits
    rw [Balance.finish, hpending] at hcheck
    cases waiting with
    | nil => exact .inl ⟨hcheck, by simpa using hwaits.balanced⟩
    | cons x waiting =>
        have hextendable := hwaits.extendable
        have hbalanced := hwaits.not_balanced
        rw [PlacedBracket.filterMap_read] at hextendable hbalanced
        exact .inr (.inr ⟨x, hcheck, hextendable, hbalanced, hwaits.lastOpen⟩)
  · refine .inr (.inl ⟨x, ?_, hbreaks⟩)
    rw [checkBalance, hrun]
    rfl

/-- **The bracket check decides balance, and locates the fault.** A query is accepted if and only if
the row of its brackets outside quotes belongs to the Dyck language of the three classes. A
bracket is missing before a closing one if and only if this is where the row is the front of a
balanced one no more. A bracket is missing at the end if and only if the row is the front of a
balanced one without being balanced, and then the last opening bracket without a match is
reported. There is no other error. -/
theorem validate_decides_balance (hd : d.check = .ok ()) (q : Text) :
    (d.validate q = .ok () ↔ Balanced ((d.brackets q).map PlacedBracket.bracket)) ∧
    ∀ e, d.validate q = .error e ↔
      (∃ x, Breaks (d.brackets q) x ∧ e = ⟨.missingOpen, x.position, some x.character, q⟩) ∨
      ∃ x, LeavesOpen (d.brackets q) x ∧ e = ⟨.missingClose, x.position, some x.character, q⟩ := by
  rw [validate, inQuery_eq_ok_iff]
  simp only [inQuery_eq_error_iff]
  rcases checkBalance_cases (check_eq_ok_iff.mp hd) q with
    ⟨hcheck, hbalanced⟩ | ⟨x, hcheck, hbreaks⟩ | ⟨x, hcheck, hopen⟩
  · rw [hcheck]
    refine ⟨iff_of_true rfl hbalanced, fun e => iff_of_false (by simp) ?_⟩
    rintro (⟨y, hbreaks, -⟩ | ⟨y, ⟨-, hnot, -⟩, -⟩)
    · exact hbreaks.not_extendable hbalanced.extendable
    · exact hnot hbalanced
  · rw [hcheck]
    refine ⟨iff_of_false (by simp) fun h => hbreaks.not_extendable h.extendable,
      fun e => ⟨?_, ?_⟩⟩
    · rintro ⟨bare, hbare, rfl⟩
      obtain rfl := Except.error.inj hbare
      exact .inl ⟨x, hbreaks, rfl⟩
    · rintro (⟨y, hbreaks', rfl⟩ | ⟨y, ⟨hextendable, -⟩, -⟩)
      · exact ⟨_, rfl, by rw [hbreaks'.unique hbreaks]; rfl⟩
      · exact absurd hextendable hbreaks.not_extendable
  · rw [hcheck]
    refine ⟨iff_of_false (by simp) hopen.2.1, fun e => ⟨?_, ?_⟩⟩
    · rintro ⟨bare, hbare, rfl⟩
      obtain rfl := Except.error.inj hbare
      exact .inr ⟨x, hopen, rfl⟩
    · rintro (⟨y, hbreaks, -⟩ | ⟨y, ⟨-, -, hlast⟩, rfl⟩)
      · exact absurd hopen.1 hbreaks.not_extendable
      · exact ⟨_, rfl, by rw [hlast.unique hopen.2.2]; rfl⟩

/-- In `(a[b)]` the brackets of each class are balanced, and the row of both classes is not. In
`(a AND "(" OR [c` the quoted parenthesis does not count, and the last bracket is left open. -/
theorem validate_decides_balance_interleaved :
    Dialect.standard.check = .ok () ∧
    ¬ Balanced [⟨.group, .opening⟩, ⟨.fieldOperator, .opening⟩, ⟨.group, .closing⟩,
      ⟨.fieldOperator, .closing⟩] ∧
    Dialect.standard.validate "(a AND \"(\" OR [c".toList
      = .error ⟨.missingClose, 14, some '[', "(a AND \"(\" OR [c".toList⟩ ∧
    ∃ x, LeavesOpen [⟨⟨.group, .opening⟩, 0, '('⟩, ⟨⟨.fieldOperator, .opening⟩, 14, '['⟩] x ∧
      x.position = 14 := by
  obtain ⟨hbalanced, -⟩ := validate_decides_balance (d := Dialect.standard) rfl "(a[b)]".toList
  obtain ⟨-, hfault⟩ :=
    validate_decides_balance (d := Dialect.standard) rfl "(a AND \"(\" OR [c".toList
  have hrow : (Dialect.standard.brackets "(a[b)]".toList).map PlacedBracket.bracket
      = [⟨.group, .opening⟩, ⟨.fieldOperator, .opening⟩, ⟨.group, .closing⟩,
        ⟨.fieldOperator, .closing⟩] := by
    decide +kernel
  have hrow' : Dialect.standard.brackets "(a AND \"(\" OR [c".toList
      = [⟨⟨.group, .opening⟩, 0, '('⟩, ⟨⟨.fieldOperator, .opening⟩, 14, '['⟩] := by
    decide +kernel
  have hrefused : Dialect.standard.validate "(a[b)]".toList ≠ .ok () := by decide +kernel
  have herror : Dialect.standard.validate "(a AND \"(\" OR [c".toList
      = .error ⟨.missingClose, 14, some '[', "(a AND \"(\" OR [c".toList⟩ := by
    decide +kernel
  rw [hrow] at hbalanced
  rw [hrow'] at hfault
  refine ⟨rfl, fun h => hrefused (hbalanced.mpr h), herror, ?_⟩
  rcases (hfault _).mp herror with ⟨x, -, he⟩ | ⟨x, hopen, he⟩
  · cases congrArg ParseError.fault he
  · exact ⟨x, hopen, (congrArg ParseError.position he).symm⟩

end BoolQuery
