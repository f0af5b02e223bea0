import BoolQuery.Proofs.Balance
import BoolQuery.Proofs.Postfix.Nesting
import BoolQuery.Proofs.Query.Errors

/-!
# The Bracket Check and the Scan Agree

The bracket check reads a query character by character and knows only quotes and brackets; the
scan finds quoted parts, keywords and fields. Both see the same parentheses: outside quotes,
each one is a mark. The brackets that wait in the check belong to three classes, but those of
one class are opened and closed in turn when those of all classes together are. So the
parentheses among the tokens of a query that passes the check nest, and the postfix pass does
not miss one: a query of which the parse misses a parenthesis or bracket has not passed the
check.

## Main definitions

* `Balance.Counts`: where the check is, and how many parentheses wait.

## Main results

* `Layout.Valid.nests`: the parentheses of the tokens nest as those of the check do.
* `grouping_agrees`: only the bracket check misses brackets.
-/

namespace BoolQuery

open Dialect

variable {d : Dialect} {q : Text} {e : ParseError} {ts : List Token}

/-! ### Parentheses in the bracket check -/

namespace Balance

variable {b b' : Balance} {before seg rest lexeme after : Text} {c : Char} {n : Nat}
  {kind : TokenKind}

/-- The number of parentheses that wait. -/
def groups (b : Balance) : Nat :=
  b.pending.countP (·.kind = .group)

/-- The check has read `before`: it knows whether it is in a quoted part, and `n` parentheses
wait. -/
structure Counts (d : Dialect) (before : Text) (b : Balance) (n : Nat) : Prop where
  /-- It is in a quoted part exactly inside quotes. -/
  inQuote : b.inQuote = true ↔ ¬ d.Outside before
  /-- The parentheses that wait. -/
  groups : b.groups = n

/-- A closing bracket is accepted when the innermost bracket is of its class. -/
theorem close_eq_ok_iff {kind : BracketKind} : b.close kind c = .ok b' ↔
    ∃ top outer, b.pending = top :: outer ∧ top.kind = kind ∧
      b' = { b with pending := outer } := by
  rw [Balance.close]
  cases hpending : b.pending with
  | nil => simp
  | cons top outer =>
      by_cases hkind : top.kind = kind
      · simp [hkind, eq_comm]
      · simp [hkind]

/-- A bracket that is no parenthesis leaves the number of parentheses as it is. -/
theorem groups_bracket_of_not_isGrouping (hc : d.isGrouping c = false)
    (h : b.bracket d c = .ok b') : b'.groups = b.groups := by
  rw [Balance.bracket] at h
  cases hbracket : d.bracket? c with
  | none => rw [hbracket] at h; rw [Except.ok.inj h]
  | some bracket =>
      obtain ⟨kind, side⟩ := bracket
      have hkind : kind ≠ .group := by
        rintro rfl
        have hside := side?_of_bracket? hbracket
        rw [side?_eq_none_iff.mpr (by simpa [isGrouping, pair] using hc)] at hside
        cases hside
      rw [hbracket] at h
      cases side with
      | opening =>
          obtain rfl := Except.ok.inj h
          simp [groups, hkind]
      | closing =>
          obtain ⟨top, outer, hpending, rfl, rfl⟩ := close_eq_ok_iff.mp h
          simp [groups, hpending, hkind]

/-- A parenthesis is read as what it is. -/
theorem groups_bracket_opening (hd : d.Sound)
    (h : b.bracket d d.group.opening = .ok b') : b'.groups = b.groups + 1 := by
  have hopen : d.bracket? d.group.opening = some ⟨.group, .opening⟩ :=
    hd.bracket?_eq_some_iff.mpr rfl
  rw [Balance.bracket, hopen] at h
  obtain rfl := Except.ok.inj h
  simp [groups]

/-- A closing parenthesis that is accepted closes an opening one. -/
theorem groups_bracket_closing (hd : d.Sound)
    (h : b.bracket d d.group.closing = .ok b') : b.groups = b'.groups + 1 := by
  have hclose : d.bracket? d.group.closing = some ⟨.group, .closing⟩ :=
    hd.bracket?_eq_some_iff.mpr rfl
  rw [Balance.bracket, hclose] at h
  obtain ⟨top, outer, hpending, hkind, rfl⟩ := close_eq_ok_iff.mp h
  simp [groups, hpending, hkind]

/-- A bracket does not begin or end a quoted part. -/
theorem inQuote_bracket (h : b.bracket d c = .ok b') : b'.inQuote = b.inQuote := by
  rw [Balance.bracket] at h
  cases hbracket : d.bracket? c with
  | none => rw [hbracket] at h; rw [Except.ok.inj h]
  | some bracket =>
      obtain ⟨kind, side⟩ := bracket
      rw [hbracket] at h
      cases side with
      | opening => obtain rfl := Except.ok.inj h; rfl
      | closing => obtain ⟨top, outer, -, -, rfl⟩ := close_eq_ok_iff.mp h; rfl

/-- **The check knows whether it is inside quotes**, at each character. -/
theorem inQuote_step (h : b.inQuote = true ↔ ¬ d.Outside before)
    (hstep : step d b c = .ok b') : b'.inQuote = true ↔ ¬ d.Outside (before ++ [c]) := by
  rw [step] at hstep
  by_cases hquote : c = d.quote
  · rw [if_pos hquote] at hstep
    obtain rfl := Except.ok.inj hstep
    simp [hquote, pass, outside_append_quote, ← h]
  rw [outside_append_of_notMem (by simpa using Ne.symm hquote), ← h]
  rw [if_neg hquote] at hstep
  split at hstep
  · obtain rfl := Except.ok.inj hstep
    rfl
  · cases hmid : b.bracket d c with
    | error e => rw [hmid] at hstep; cases hstep
    | ok mid =>
        rw [hmid] at hstep
        obtain rfl := Except.ok.inj hstep
        rw [← inQuote_bracket hmid]
        rfl

/-- The check knows at the end of a text whether it is inside quotes. -/
theorem inQuote_run {t : Text} (h : b.inQuote = true ↔ ¬ d.Outside before)
    (hrun : t.foldlM (step d) b = .ok b') : b'.inQuote = true ↔ ¬ d.Outside (before ++ t) := by
  induction t generalizing before b with
  | nil =>
      obtain rfl := Except.ok.inj hrun
      simpa using h
  | cons c t ih =>
      obtain ⟨mid, hstep, hrest⟩ := foldlM_cons_eq_ok_iff.mp hrun
      simpa using ih (inQuote_step h hstep) hrest

/-- Outside quotes a character that is no quote is read as a bracket, if it is one. -/
theorem Counts.bracket (h : b.Counts d before n) (hout : d.Outside before) (hc : c ≠ d.quote)
    (hstep : step d b c = .ok b') :
    ∃ mid, b.bracket d c = .ok mid ∧ b'.groups = mid.groups := by
  have hin : ¬ b.inQuote = true := fun hin => h.inQuote.mp hin hout
  rw [step, if_neg hc, if_neg hin] at hstep
  cases hmid : b.bracket d c with
  | error e => rw [hmid] at hstep; cases hstep
  | ok mid =>
      rw [hmid] at hstep
      obtain rfl := Except.ok.inj hstep
      exact ⟨mid, rfl, rfl⟩

/-- **A character at which no mark begins** leaves as many parentheses waiting. -/
theorem Counts.step_of_noMark (hd : d.Sound) (h : b.Counts d before n)
    (hmark : d.NoMark before (c :: rest)) (hstep : step d b c = .ok b') :
    b'.Counts d (before ++ [c]) n := by
  refine ⟨inQuote_step h.inQuote hstep, ?_⟩
  by_cases hquote : c = d.quote
  · rw [step, if_pos hquote] at hstep
    obtain rfl := Except.ok.inj hstep
    exact h.groups
  by_cases hout : d.Outside before
  · obtain ⟨mid, hmid, hgroups⟩ := h.bracket hout hquote hstep
    have hgroup := (hd.noMark_cons_iff.mp hmark hout).1
    rw [hgroups, groups_bracket_of_not_isGrouping hgroup hmid, h.groups]
  · rw [step, if_neg hquote, if_pos (h.inQuote.mpr hout)] at hstep
    obtain rfl := Except.ok.inj hstep
    exact h.groups

/-- So does a stretch in which no mark begins. -/
theorem Counts.run_of_plain (hd : d.Sound) (h : b.Counts d before n)
    (hplain : d.Plain before seg after) (hrun : seg.foldlM (step d) b = .ok b') :
    b'.Counts d (before ++ seg) n := by
  induction seg generalizing before b with
  | nil =>
      obtain rfl := Except.ok.inj hrun
      simpa using h
  | cons c seg ih =>
      obtain ⟨hmark, hplain⟩ := plain_cons_iff.mp hplain
      obtain ⟨mid, hstep, hrest⟩ := foldlM_cons_eq_ok_iff.mp hrun
      simpa using ih (h.step_of_noMark hd hmark hstep) hplain hrest

/-- **A mark** opens or closes a parenthesis if it is one. -/
theorem Counts.run_of_markAt (hd : d.Sound) (h : b.Counts d before n)
    (hmark : d.MarkAt before kind lexeme after) (hrun : lexeme.foldlM (step d) b = .ok b') :
    ∃ m, kind.Nests n m ∧ b'.Counts d (before ++ lexeme) m := by
  have hin := inQuote_run h.inQuote hrun
  cases hmark with
  | openGroup _ hout =>
      rw [foldlM_singleton] at hrun
      obtain ⟨mid, hmid, hgroups⟩ := h.bracket hout hd.opening_ne_quote hrun
      refine ⟨n + 1, .openGroup n, hin, ?_⟩
      rw [hgroups, groups_bracket_opening hd hmid, h.groups]
  | closeGroup _ hout =>
      rw [foldlM_singleton] at hrun
      obtain ⟨mid, hmid, hgroups⟩ := h.bracket hout hd.closing_ne_quote hrun
      obtain rfl : n = mid.groups + 1 := h.groups.symm.trans (groups_bracket_closing hd hmid)
      exact ⟨mid.groups, .closeGroup _, hin, hgroups⟩
  | operator op hout =>
      have hfalse : b.inQuote = false := by simpa [hout] using h.inQuote
      rw [neutral_keyword hd op b hfalse] at hrun
      obtain rfl := Except.ok.inj hrun
      exact ⟨n, .operator op n, hin, h.groups⟩

end Balance

/-! ### Parentheses among the tokens -/

namespace Layout

variable {b b' : Balance} {before : Text} {l : Layout} {p n m : Nat}

/-- The term of a segment is no parenthesis. -/
theorem nests_of_readSegment {seg : Text} {term : Option Token}
    (hread : d.readSegment p seg = .ok term) (h : Nests n ts m) :
    Nests n (term.toList ++ ts) m := by
  obtain ⟨-, -, rfl⟩ := readSegment_eq_ok_iff.mp hread
  cases firstPlace? p seg with
  | none => exact h
  | some place => exact .cons (.term _ n) h

/-- **The parentheses of the tokens nest as those of the check do.** -/
theorem Valid.nests (hd : d.Sound) (hl : l.Valid d before) (h : b.Counts d before n)
    (hrun : l.text.foldlM (Balance.step d) b = .ok b') (hts : l.tokens d p = .ok ts) :
    Nests n ts b'.groups := by
  induction hl generalizing b n p ts with
  | last hplain =>
      obtain ⟨term, hread, rfl⟩ := tokens_last_eq_ok_iff.mp hts
      have hend := h.run_of_plain hd hplain hrun
      rw [hend.groups]
      simpa using nests_of_readSegment hread (.nil n)
  | mark hplain hmark _ ih =>
      obtain ⟨term, rest, hread, hrest, rfl⟩ := tokens_mark_eq_ok_iff.mp hts
      -- the check goes over the segment, then over the mark, then over the rest
      obtain ⟨mid, hseg, hbehind⟩ := foldlM_append_eq_ok_iff.mp hrun
      obtain ⟨mid', hlexeme, hmore⟩ := foldlM_append_eq_ok_iff.mp hbehind
      have hcounts := h.run_of_plain hd hplain hseg
      obtain ⟨k, hkind, hcounts'⟩ := hcounts.run_of_markAt hd hmark hlexeme
      exact nests_of_readSegment hread (.cons hkind (ih hcounts' hmore hrest))

end Layout

/-- **The parentheses of a query that passes the bracket check nest among its tokens**, and none
is left open. -/
theorem nests_of_checkBalance (hd : d.Sound) (hbalance : checkBalance d q = .ok ())
    (hts : d.tokenize q = .ok ts) : Nests 0 ts 0 := by
  obtain ⟨l, hl, rfl, hscan⟩ := exists_layout hd q
  rw [tokenize_eq_ok_iff, hscan] at hts
  obtain ⟨b, hrun, hfinish⟩ := bind_eq_ok_iff.mp hbalance
  have hstart : Balance.Counts d [] {} 0 := ⟨by simp, rfl⟩
  have hgroups : b.groups = 0 := by
    rw [Balance.finish] at hfinish
    cases hpending : b.pending with
    | nil => simp [Balance.groups, hpending]
    | cons top outer => rw [hpending] at hfinish; cases hfinish
  have hnests := hl.nests hd hstart hrun hts
  rwa [hgroups] at hnests

/-! ### Which step misses brackets -/

/-- The bracket check reports nothing but missing brackets. -/
theorem fault_of_checkBalance (h : checkBalance d q = .error e) : e.fault.OfBracket := by
  have hself : Alike (fun e _ => e.fault.OfBracket) (fun _ _ => True) (checkBalance d q)
      (checkBalance d q) := checkBalance_like fun _ _ _ _ _ hfault => hfault
  obtain ⟨-, -, hfault⟩ := hself.exists_error h
  exact hfault

/-- The scan reports nothing but quotes that do not end and fields at fault. -/
theorem fault_of_tokenize (hd : d.Sound) (h : d.tokenize q = .error e) :
    e.fault = .unclosedQuote ∨ e.fault = .malformedField := by
  rcases (tokenize_eq_error_iff hd).mp h with ⟨before, seg, n, -, -, -, rfl⟩ | ⟨-, -, rfl⟩
  · exact .inr rfl
  · exact .inl rfl

/-- What comes out of the postfix pass makes up a tree, unless this is too deep. -/
theorem fault_of_buildTree {out : List Token} (hout : toPostfix ts = .ok out)
    (h : buildTree out = .error e) : e.fault = .tooDeep := by
  rcases buildTree_of_toPostfix hout with ⟨-, hempty⟩ | ⟨p, -, hbuild⟩
  · rw [hempty] at h
    cases h
  · split at hbuild
    · rw [hbuild] at h
      cases h
    · obtain ⟨position, herror⟩ := hbuild
      rw [herror] at h
      obtain rfl := Except.error.inj h
      rfl

/-- **Only the bracket check misses brackets.** On the tokens of a query that passes the check the
postfix pass misses no parenthesis. So when the parse of a query misses a bracket, this is the
error of the check, and what it may report of a query that passes the check is something
else. -/
theorem grouping_agrees (hd : d.check = .ok ()) (q : Text) :
    (d.validate q = .ok () → ∀ ts, d.tokenize q = .ok ts → ∀ e, toPostfix ts = .error e →
      e.fault ≠ .missingOpen ∧ e.fault ≠ .missingClose) ∧
    (∀ e, d.parse q = .error e ∧ (e.fault = .missingOpen ∨ e.fault = .missingClose) ↔
      d.validate q = .error e) ∧
    (d.validate q = .ok () → ∀ e, d.parse q = .error e →
      e.fault ∈ [.unclosedQuote, .malformedField, .missingOperand, .missingOperator, .tooDeep]) := by
  have hd := check_eq_ok_iff.mp hd
  have hpostfix : d.validate q = .ok () → ∀ ts, d.tokenize q = .ok ts → ∀ e,
      toPostfix ts = .error e → e.fault = .missingOperand ∨ e.fault = .missingOperator :=
    fun hvalid ts hts e he =>
      (nests_of_checkBalance hd (inQuery_eq_ok_iff.mp hvalid) hts).fault_of_toPostfix he
  have hrest : d.validate q = .ok () → ∀ e, d.parse q = .error e →
      e.fault ∈ [.unclosedQuote, .malformedField, .missingOperand, .missingOperator, .tooDeep] := by
    intro hvalid e he
    rcases parse_eq_error_iff.mp he with hbalance | ⟨-, hscan | ⟨ts, hts, bare, hbare, rfl⟩⟩
    · rw [hvalid] at hbalance
      cases hbalance
    · rcases fault_of_tokenize hd hscan with h | h <;> simp [h]
    · have hfault : (bare.inQuery q).fault = bare.fault := rfl
      rcases bind_eq_error_iff.mp hbare with herror | ⟨out, hout, herror⟩
      · rcases hpostfix hvalid ts hts bare herror with h | h <;> simp [hfault, h]
      · simp [hfault, fault_of_buildTree hout herror]
  refine ⟨fun hvalid ts hts e he => ?_, fun e => ⟨?_, fun hbalance => ?_⟩, hrest⟩
  · rcases hpostfix hvalid ts hts e he with h | h <;> simp [h]
  · rintro ⟨he, hfault⟩
    rcases parse_eq_error_iff.mp he with hbalance | ⟨hvalid, -⟩
    · exact hbalance
    · have := hrest hvalid e he
      rcases hfault with h | h <;> simp [h] at this
  · obtain ⟨bare, hbare, rfl⟩ := inQuery_eq_error_iff.mp hbalance
    have hfault := fault_of_checkBalance hbare
    exact ⟨parse_eq_error_iff.mpr (.inl hbalance), hfault⟩

/-- In `([x)]` each class of brackets is balanced on its own, which does not help. In
`(x) NOT "("` the last parenthesis is quoted, and something else is missing. -/
theorem grouping_agrees_nested :
    Dialect.standard.check = .ok () ∧
    Dialect.standard.validate "([x)]".toList
      = .error ⟨.missingOpen, 3, some ')', "([x)]".toList⟩ ∧
    Dialect.standard.parse "([x)]".toList
      = .error ⟨.missingOpen, 3, some ')', "([x)]".toList⟩ ∧
    Dialect.standard.validate "(x) NOT \"(\"".toList = .ok () ∧
    Dialect.standard.parse "(x) NOT \"(\"".toList
      = .error ⟨.missingOperator, 4, some 'N', "(x) NOT \"(\"".toList⟩ ∧
    ParseFault.missingOperator
      ∈ [.unclosedQuote, .malformedField, .missingOperand, .missingOperator, .tooDeep] := by
  have hcheck : Dialect.standard.validate "([x)]".toList
      = .error ⟨.missingOpen, 3, some ')', "([x)]".toList⟩ := by
    decide +kernel
  have hvalid : Dialect.standard.validate "(x) NOT \"(\"".toList = .ok () := by decide +kernel
  have hparse : Dialect.standard.parse "(x) NOT \"(\"".toList
      = .error ⟨.missingOperator, 4, some 'N', "(x) NOT \"(\"".toList⟩ := by
    decide +kernel
  obtain ⟨-, hmissing, -⟩ := grouping_agrees (d := Dialect.standard) rfl "([x)]".toList
  obtain ⟨-, -, hother⟩ := grouping_agrees (d := Dialect.standard) rfl "(x) NOT \"(\"".toList
  exact ⟨rfl, hcheck, ((hmissing _).mpr hcheck).1, hvalid, hparse, hother hvalid _ hparse⟩

end BoolQuery
