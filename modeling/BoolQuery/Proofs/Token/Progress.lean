import BoolQuery.Proofs.Fold
import BoolQuery.Proofs.Text.Place
import BoolQuery.Proofs.Token.Scan

/-!
# The Scan Comes to an End

The scan as a loop of which it is not clear that it ends. As long as there is a next character, the
loop takes a turn. A turn compares the keywords with what is left of the query and takes the longest
one that stands there as a whole word; only then does it pass over the keyword, one character after
the other, up to the byte offset where the keyword should end. An empty keyword stands in front of
all white space, and the loop finds it there again and again: nothing is passed over.

A dialect that passes its check has no such keyword. Every turn that does not fail passes over some
text, so the loop takes at most as many turns as the query has characters, and finds what the scan
finds. What stands at a place as a whole word ends in front of the next character that ends words.
So there is at most one keyword to take, also when one keyword is the beginning of another.

## Main definitions

* `Dialect.StandsAt`: a keyword that stands at a place of a text as a whole word.
* `Dialect.words`, `Dialect.longestWord?`: all keywords at the front of a text, and the longest one.
* `Text.skipTo`: the characters up to a byte offset are passed over.
* `Scanner.turn`, `Scanner.runBounded`, `scanBounded`: a turn of the loop, and the loop with a bound
  on the number of its turns.
* `Scanner.Passes`: what a turn passes over.

## Main results

* `Dialect.Sound.words_eq`: at most one keyword stands at a place.
* `Scanner.turn_eq_step`, `Scanner.turn_passes`: a turn is a turn of the scan and passes over some
  text.
* `Scanner.runBounded_eq_run`: the loop ends as the scan does.
* `Scanner.runBounded_eq_none`: with an empty keyword it need not end.
-/

namespace BoolQuery

open Dialect

variable {d : Dialect} {t rest : Text} {c : Char} {op op' : Operator}

/-! ### Keywords at a place -/

namespace Dialect

/-- The keyword of `op` stands at the byte offset `offset` of the text `q` as a whole word: behind
it is the end of the text or a character that ends words. -/
def StandsAt (d : Dialect) (q : Text) (offset : Nat) (op : Operator) : Prop :=
  ∃ before after, q = before ++ (d.keyword op ++ after) ∧ Text.byteSize before = offset ∧
    after.head?.all d.endsWord = true

/-- The test for a keyword at the front of a text. -/
def isWord (d : Dialect) (t : Text) (op : Operator) : Bool :=
  (t.after? (d.keyword op)).any fun rest => rest.head?.all d.endsWord

/-- The operators whose keywords stand at the front of a text as whole words. -/
def words (d : Dialect) (t : Text) : List Operator :=
  Operator.all.filter (d.isWord t)

/-- The operator with the longest of these keywords, the last one if there are several. -/
def longestWord? (d : Dialect) (t : Text) : Option Operator :=
  (d.words t).reverse.maxOn? fun op => Text.byteSize (d.keyword op)

/-- The keywords at the front of a text are what it begins with. -/
theorem mem_words_iff :
    op ∈ d.words t ↔ ∃ rest, t = d.keyword op ++ rest ∧ rest.head?.all d.endsWord = true := by
  simp only [words, List.mem_filter, Operator.mem_all, true_and, isWord, Option.any_eq_true,
    Text.after?_eq_some_iff]

/-- A keyword stands at a place when what is left of the text there begins with it. -/
theorem standsAt_append_iff (before : Text) :
    d.StandsAt (before ++ t) (Text.byteSize before) op ↔ op ∈ d.words t := by
  rw [mem_words_iff]
  constructor
  · rintro ⟨before', after, heq, hsize, hend⟩
    -- at a byte offset a text can be cut in one way only
    have hcut := Text.cut?_eq_some_iff.mpr ⟨heq, hsize⟩
    rw [Text.cut?_eq_some_iff.mpr ⟨rfl, rfl⟩, Option.some.injEq, Prod.mk.injEq] at hcut
    exact ⟨after, hcut.2, hend⟩
  · rintro ⟨after, rfl, hend⟩
    exact ⟨before, after, rfl, rfl, hend⟩

/-- The longest keyword is one of those that stand there. -/
theorem mem_words_of_longestWord? (h : d.longestWord? t = some op) : op ∈ d.words t :=
  List.mem_reverse.mp (List.maxOn?_mem h)

/-- An empty keyword is found in front of white space, when no keyword begins with that. -/
theorem exists_longestWord?_of_blank (hop : d.keyword op = [])
    (hblank : ∀ op, ∀ k ∈ d.keyword op, Text.isBlank k = false) (hc : Text.isBlank c = true)
    (rest : Text) : ∃ op', d.longestWord? (c :: rest) = some op' ∧ d.keyword op' = [] := by
  have hword : op ∈ (d.words (c :: rest)).reverse :=
    List.mem_reverse.mpr (mem_words_iff.mpr ⟨c :: rest, by simp [hop], by simp [endsWord, hc]⟩)
  obtain ⟨op', hop'⟩ := Option.isSome_iff_exists.mp (List.isSome_maxOn?_of_mem
    (f := fun op => Text.byteSize (d.keyword op)) hword)
  refine ⟨op', hop', ?_⟩
  obtain ⟨more, heq, -⟩ := mem_words_iff.mp (mem_words_of_longestWord? hop')
  cases hkey : d.keyword op' with
  | nil => rfl
  | cons k ks =>
      rw [hkey] at heq
      obtain ⟨rfl, -⟩ := List.cons.inj heq
      rw [hblank op' c (by simp [hkey])] at hc
      cases hc

namespace Sound

/-- **At most one keyword stands at a place**, and this is the one that the scan finds. -/
theorem words_eq (hd : d.Sound) (t : Text) :
    d.words t = ((d.keywordAt? t).map Prod.fst).toList := by
  have hmem : ∀ op, op ∈ d.words t ↔ ∃ rest, d.keywordAt? t = some (op, rest) := by
    intro op
    simp only [mem_words_iff, hd.keywordAt?_eq_some_iff_append]
  cases hfound : d.keywordAt? t with
  | none =>
      refine List.eq_nil_iff_forall_not_mem.mpr fun op hop => ?_
      obtain ⟨rest, hrest⟩ := (hmem op).mp hop
      rw [hfound] at hrest
      cases hrest
  | some found =>
      obtain ⟨op, rest⟩ := found
      have hword : ∀ op' ∈ Operator.all, d.isWord t op' = decide (op = op') := by
        intro op' hall
        have hop' := hmem op'
        rw [words, List.mem_filter, hfound] at hop'
        have hiff : d.isWord t op' = true ↔ op = op' := by simpa [hall] using hop'
        rw [Bool.eq_iff_iff, hiff, decide_eq_true_iff]
      rw [words, List.filter_congr hword]
      cases op <;> rfl

/-- The longest keyword is the one that the scan finds. -/
theorem longestWord?_eq (hd : d.Sound) (t : Text) :
    d.longestWord? t = (d.keywordAt? t).map Prod.fst := by
  rw [longestWord?, hd.words_eq]
  cases d.keywordAt? t <;> rfl

/-- The longest keyword is the only one. -/
theorem longestWord?_eq_some_iff (hd : d.Sound) : d.longestWord? t = some op ↔ op ∈ d.words t := by
  rw [hd.longestWord?_eq, hd.words_eq, Option.mem_toList]

/-- No two keywords stand at the same place. -/
theorem eq_of_mem_words (hd : d.Sound) (hop : op ∈ d.words t) (hop' : op' ∈ d.words t) :
    op = op' :=
  Option.some.inj ((hd.longestWord?_eq_some_iff.mpr hop).symm.trans
    (hd.longestWord?_eq_some_iff.mpr hop'))

end Sound

end Dialect

/-! ### Passing over a keyword -/

/-- Passes over characters, the first of which is at `offset`, as long as they begin before
`target`: the offset of the next character, and the text that is left. -/
def Text.skipTo (target : Nat) : (offset : Nat) → Text → Nat × Text
  | offset, [] => (offset, [])
  | offset, c :: t =>
    if offset < target then skipTo target (offset + c.utf8Size) t else (offset, c :: t)

/-- **Up to the end of a front exactly this front is passed over.** -/
theorem Text.skipTo_append (offset : Nat) (front rest : Text) :
    skipTo (offset + byteSize front) offset (front ++ rest) = (offset + byteSize front, rest) := by
  induction front generalizing offset with
  | nil => cases rest <;> simp [skipTo]
  | cons c front ih =>
      have hsize : offset + byteSize (c :: front) = offset + c.utf8Size + byteSize front := by
        rw [byteSize_cons, Nat.add_assoc]
      have hlt : offset < offset + c.utf8Size + byteSize front := by
        have := c.utf8Size_pos
        omega
      rw [hsize, List.cons_append, skipTo, if_pos hlt, ih]

namespace Scanner

variable {s s' : Scanner} {next : Scanner × Text}

/-- The operator of the longest keyword that stands here, where a keyword may stand. -/
def keyword? (s : Scanner) (d : Dialect) (text : Text) : Option Operator :=
  if s.atWordStart then d.longestWord? text else none

/-- Passes over the keyword of `op`, which ends the operand being read, up to the byte offset where
the keyword ends if it stands here. -/
def skipKeyword (s : Scanner) (d : Dialect) (op : Operator) (text : Text) :
    Except ParseError (Scanner × Text) :=
  (s.finishOperand d).map fun s' =>
    let skipped := Text.skipTo (s.offset + Text.byteSize (d.keyword op)) s.offset text
    ({ s' with
      offset := skipped.1
      atWordStart := true
      found := ⟨.operator op, s.offset⟩ :: s'.found }, skipped.2)

/-- One turn of the loop at the character `c`, before `rest`. -/
def turn (s : Scanner) (d : Dialect) (c : Char) (rest : Text) :
    Except ParseError (Scanner × Text) :=
  if c = d.quote then s.passQuoted d rest
  else if d.isGrouping c then
    (s.passToken d (if c = d.group.opening then .openGroup else .closeGroup) c.utf8Size).map
      (·, rest)
  else match s.keyword? d (c :: rest) with
    | some op => s.skipKeyword d op (c :: rest)
    | none =>
      if c = d.fieldDelimiter && s.operand.acceptsField then
        (s.operand.startField d s.offset).map fun operand =>
          ({ s with offset := s.offset + c.utf8Size, atWordStart := false, operand }, rest)
      else
        .ok ({ s with
          offset := s.offset + c.utf8Size
          atWordStart := Text.isBlank c
          operand := s.operand.push s.offset c }, rest)

/-- The loop with at most the given number of turns, and the end of the last operand; none if there
is still a next character after that many turns. -/
def runBounded (d : Dialect) : (turns : Nat) → Scanner → Text → Option (Except ParseError Scanner)
  | _, s, [] => some (s.finishOperand d)
  | 0, _, _ :: _ => none
  | turns + 1, s, c :: rest =>
    match s.turn d c rest with
    | .error e => some (.error e)
    | .ok next => runBounded d turns next.1 next.2

/-- From the state `s` in front of `text`, the scanner has passed over `passed`, which is some text,
and goes on in front of the rest. -/
structure Passes (s : Scanner) (text passed : Text) (next : Scanner × Text) : Prop where
  /-- It has left its place. -/
  ne_nil : passed ≠ []
  /-- It goes on behind what it has passed over. -/
  text : text = passed ++ next.2
  /-- It knows its new place. -/
  offset : next.1.offset = s.offset + Text.byteSize passed

/-- Passing over some text leaves less to read. -/
theorem Passes.length_lt {text passed : Text} (h : s.Passes text passed next) :
    next.2.length < text.length := by
  have := List.length_pos_iff.mpr h.ne_nil
  rw [h.text, List.length_append]
  omega

/-! ### What a turn passes over -/

/-- A mark ends where its size says. -/
theorem offset_of_passToken {kind : TokenKind} {size : Nat}
    (h : s.passToken d kind size = .ok s') : s'.offset = s.offset + size := by
  rw [passToken] at h
  split at h
  · cases h
  · obtain rfl := Except.ok.inj h
    rfl

/-- A quoted part is passed over with the quotes on both sides. -/
theorem passes_of_passQuoted (h : s.passQuoted d rest = .ok next) :
    ∃ passed, s.Passes (d.quote :: rest) passed next := by
  rw [passQuoted] at h
  split at h
  · cases h
  · next close after hdrop =>
    obtain rfl := Except.ok.inj h
    have hrest : rest.takeWhile (· != d.quote) ++ close :: after = rest := by
      rw [← hdrop, List.takeWhile_append_dropWhile]
    refine ⟨d.quote :: (rest.takeWhile (· != d.quote) ++ [close]), by simp, ?_, ?_⟩
    · simpa using hrest.symm
    · simp [Nat.add_assoc]

/-- **Exactly the keyword is passed over**, if it stands here and is not empty. -/
theorem passes_of_skipKeyword (hop : d.keyword op ≠ []) (hword : op ∈ d.words t)
    (h : s.skipKeyword d op t = .ok next) : s.Passes t (d.keyword op) next := by
  obtain ⟨rest, rfl, -⟩ := mem_words_iff.mp hword
  obtain ⟨s', -, rfl⟩ := map_eq_ok_iff.mp h
  simp only [Text.skipTo_append]
  exact ⟨hop, rfl, rfl⟩

/-- The keyword that stands here is at the front of the text. -/
theorem mem_words_of_keyword? (h : s.keyword? d t = some op) : op ∈ d.words t := by
  rw [keyword?] at h
  split at h
  · exact mem_words_of_longestWord? h
  · cases h

/-- **A turn passes over some text**, if no keyword is empty. -/
theorem turn_passes (hne : ∀ op, d.keyword op ≠ []) (h : s.turn d c rest = .ok next) :
    ∃ passed, s.Passes (c :: rest) passed next := by
  rw [turn] at h
  split at h
  · next hquote =>
    subst hquote
    exact passes_of_passQuoted h
  split at h
  · obtain ⟨s', hpass, rfl⟩ := map_eq_ok_iff.mp h
    exact ⟨[c], by simp, rfl, by simpa using offset_of_passToken hpass⟩
  split at h
  · next op hkeyword =>
    -- the only turn that need not pass over `c`: that it does rests on the keyword
    exact ⟨_, passes_of_skipKeyword (hne op) (mem_words_of_keyword? hkeyword) h⟩
  split at h
  · obtain ⟨operand, -, rfl⟩ := map_eq_ok_iff.mp h
    exact ⟨[c], by simp, rfl, by simp⟩
  · obtain rfl := Except.ok.inj h
    exact ⟨[c], by simp, rfl, by simp⟩

/-- Where a keyword stands, a turn takes it. -/
theorem turn_of_keyword? (hd : d.Sound) (h : s.keyword? d (c :: rest) = some op) :
    s.turn d c rest = s.skipKeyword d op (c :: rest) := by
  have hfree : d.endsWord c = false := by
    obtain ⟨more, heq, -⟩ := mem_words_iff.mp (mem_words_of_keyword? h)
    obtain ⟨k, ks, hkey, hk⟩ := hd.exists_keyword_eq_cons op
    rw [hkey] at heq
    obtain ⟨rfl, -⟩ := List.cons.inj heq
    exact hk
  obtain ⟨-, hgroup, hquote⟩ := endsWord_eq_false_iff.mp hfree
  simp [turn, hquote, hgroup, h]

/-! ### The loop and the scan -/

/-- **A turn of the loop is a turn of the scan.** -/
theorem turn_eq_step (hd : d.Sound) (s : Scanner) (c : Char) (rest : Text) :
    s.turn d c rest = s.step d c rest := by
  have hkeyword : s.keyword? d (c :: rest) =
      (if s.atWordStart then d.keywordAt? (c :: rest) else none).map Prod.fst := by
    rw [keyword?, hd.longestWord?_eq]
    split <;> rfl
  rw [turn, step, hkeyword]
  cases hfound : if s.atWordStart = true then d.keywordAt? (c :: rest) else none with
  | none => rfl
  | some found =>
      obtain ⟨op, after⟩ := found
      have hat : d.keywordAt? (c :: rest) = some (op, after) := by
        split at hfound
        · exact hfound
        · cases hfound
      have hskip : s.skipKeyword d op (c :: rest) =
          (s.passToken d (.operator op) (Text.byteSize (d.keyword op))).map (·, after) := by
        rw [(hd.keywordAt?_eq_some_iff_append.mp hat).1, skipKeyword, passToken,
          Text.skipTo_append]
        cases s.finishOperand d <;> rfl
      simp only [Option.map_some, hskip]

/-- **The loop ends as the scan does**, within one turn for each character. -/
theorem runBounded_eq_run (hd : d.Sound) {turns : Nat} (h : t.length ≤ turns) :
    runBounded d turns s t = some (s.run d t) := by
  induction turns generalizing s t with
  | zero =>
      obtain rfl := List.length_eq_zero_iff.mp (Nat.le_zero.mp h)
      rw [runBounded, run]
  | succ turns ih =>
      cases t with
      | nil => rw [runBounded, run]
      | cons c rest =>
          rw [runBounded, turn_eq_step hd]
          cases hstep : s.step d c rest with
          | error e => rw [run_cons_of_error hstep]
          | ok next =>
              have hlength : next.2.length ≤ turns :=
                (length_le_of_step hstep).trans (Nat.le_of_succ_le_succ h)
              rw [run_cons_of_ok hstep]
              exact ih hlength

/-! ### Why no keyword may be empty -/

/-- **With an empty keyword the loop does not end** in front of white space: however many turns it
takes, the white space is not passed over. -/
theorem runBounded_eq_none (hop : d.keyword op = [])
    (hblank : ∀ op, ∀ k ∈ d.keyword op, Text.isBlank k = false) (hc : Text.isBlank c = true)
    (hquote : c ≠ d.quote) (hgroup : d.isGrouping c = false) (hstart : s.atWordStart = true)
    (hoperand : s.operand = {}) (turns : Nat) (rest : Text) :
    runBounded d turns s (c :: rest) = none := by
  obtain ⟨op', hfound, hempty⟩ := exists_longestWord?_of_blank hop hblank hc rest
  induction turns generalizing s with
  | zero => rw [runBounded]
  | succ turns ih =>
      have hturn : s.turn d c rest = .ok ({ s with
          operand := {}, found := ⟨.operator op', s.offset⟩ :: s.found }, c :: rest) := by
        simp [turn, hquote, hgroup, keyword?, hstart, hfound, skipKeyword, hempty, finishOperand,
          hoperand, Operand.token?, Except.map, Text.skipTo]
      rw [runBounded, hturn]
      exact ih hstart rfl

/-- Negation has no keyword: a hundred turns do not get past the first space. -/
example : runBounded { Dialect.standard with keywords := ⟨['A', 'N', 'D'], ['O', 'R'], []⟩ } 100 {}
    [' ', 'x'] = none := by decide +kernel

end Scanner

/-- The tokens of a query, in order, if the loop finds them in at most the given number of turns. -/
def scanBounded (d : Dialect) (turns : Nat) (q : Text) : Option (Except ParseError (List Token)) :=
  (Scanner.runBounded d turns {} q).map fun result => result.map fun s => s.found.reverse

/-- The loop finds the tokens of a query within one turn for each character. -/
theorem scanBounded_eq_scan (hd : d.Sound) {q : Text} {turns : Nat} (h : q.length ≤ turns) :
    scanBounded d turns q = some (scan d q) := by
  rw [scanBounded, Scanner.runBounded_eq_run hd h, scan]
  cases Scanner.run {} d q <;> rfl

/-- **The scan advances.** For a dialect that passes its check, at most one keyword stands at a
place of a text as a whole word, and to take the longest is to take this one. From any state, a turn
of the loop is a turn of the scan; it fails, or passes over some text and leaves less to read, and
at a keyword it passes over exactly the keyword. So the loop ends, from any state and for any query,
within one turn for each character, and ends as the scan does. -/
theorem scan_advances (hd : d.check = .ok ()) :
    (∀ (q : Text) (offset : Nat) (op op' : Operator),
      d.StandsAt q offset op → d.StandsAt q offset op' → op = op') ∧
    (∀ (before t : Text), (d.words t).length ≤ 1 ∧ ∀ op,
      d.longestWord? t = some op ↔ d.StandsAt (before ++ t) (Text.byteSize before) op) ∧
    (∀ (s : Scanner) (c : Char) (rest : Text), s.turn d c rest = s.step d c rest ∧
      ∀ next, s.turn d c rest = .ok next →
        next.2.length < (c :: rest).length ∧ (∃ passed, s.Passes (c :: rest) passed next) ∧
        ∀ op, s.keyword? d (c :: rest) = some op → s.Passes (c :: rest) (d.keyword op) next) ∧
    (∀ (s : Scanner) (t : Text) (turns : Nat), t.length ≤ turns →
      s.runBounded d turns t = some (s.run d t)) ∧
    ∀ (q : Text) (turns : Nat), q.length ≤ turns → scanBounded d turns q = some (scan d q) := by
  have hsound := check_eq_ok_iff.mp hd
  refine ⟨?_, fun before t => ⟨?_, fun op => ?_⟩,
    fun s c rest => ⟨Scanner.turn_eq_step hsound s c rest, ?_⟩,
    fun s t turns => Scanner.runBounded_eq_run hsound, fun q turns => scanBounded_eq_scan hsound⟩
  · rintro q offset op op' ⟨before, after, rfl, rfl, hend⟩ hop'
    exact hsound.eq_of_mem_words (mem_words_iff.mpr ⟨after, rfl, hend⟩)
      ((standsAt_append_iff before).mp hop')
  · rw [hsound.words_eq]
    cases d.keywordAt? t <;> simp
  · rw [standsAt_append_iff, hsound.longestWord?_eq_some_iff]
  · intro next hturn
    obtain ⟨passed, hpasses⟩ := Scanner.turn_passes hsound.keyword_ne_nil hturn
    refine ⟨hpasses.length_lt, ⟨passed, hpasses⟩, fun op hop => ?_⟩
    rw [Scanner.turn_of_keyword? hsound hop] at hturn
    exact Scanner.passes_of_skipKeyword (hsound.keyword_ne_nil op)
      (Scanner.mem_words_of_keyword? hop) hturn

/-- Each keyword of this dialect is the beginning of the next one. In `ä éé(x` only the second one
stands behind the space, and the turn there, in which the operand `ä` ends, takes two characters of
two bytes each. -/
theorem scan_advances_nested_keywords :
    let d := { Dialect.standard with keywords := ⟨['é'], ['é', 'é'], ['é', 'é', 'é']⟩ }
    let left : Text := ['é', 'é', '(', 'x']
    let q : Text := ['ä', ' '] ++ left
    let s : Scanner := { offset := 3, operand := { loose := [' ', 'ä'], start := some 0 } }
    d.check = .ok () ∧
    d.StandsAt q 3 .or ∧ (∀ op, d.StandsAt q 3 op → op = .or) ∧ d.longestWord? left = some .or ∧
    (∃ next, s.turn d 'é' ['é', '(', 'x'] = .ok next ∧ next.2.length < left.length ∧
      s.Passes left ['é', 'é'] next ∧ next.1.offset = 7 ∧ next.2 = ['(', 'x']) ∧
    s.runBounded d 4 left = some (s.run d left) ∧
    scanBounded d 6 q = some (.ok [⟨.term { value := ['ä'] }, 0⟩, ⟨.operator .or, 3⟩,
      ⟨.openGroup, 7⟩, ⟨.term { value := ['x'] }, 8⟩]) := by
  intro d left q s
  have hcheck : d.check = .ok () := rfl
  obtain ⟨hunique, hlongest, hturn, hrun, hscan⟩ := scan_advances hcheck
  have hstands : d.StandsAt q 3 .or := ⟨['ä', ' '], ['(', 'x'], rfl, rfl, rfl⟩
  have hword : d.longestWord? left = some .or := ((hlongest ['ä', ' '] left).2 .or).mpr hstands
  have htokens : scan d q = .ok [⟨.term { value := ['ä'] }, 0⟩, ⟨.operator .or, 3⟩,
      ⟨.openGroup, 7⟩, ⟨.term { value := ['x'] }, 8⟩] := by decide +kernel
  have hnext : s.turn d 'é' ['é', '(', 'x'] = .ok ({ s with
      offset := 7
      operand := {}
      found := [⟨.operator .or, 3⟩, ⟨.term { value := ['ä'] }, 0⟩] }, ['(', 'x']) := by
    decide +kernel
  obtain ⟨hlength, -, hpasses⟩ := (hturn s 'é' ['é', '(', 'x']).2 _ hnext
  exact ⟨hcheck, hstands, fun op hop => hunique q 3 op .or hop hstands, hword,
    ⟨_, hnext, hlength, hpasses .or hword, rfl, rfl⟩, hrun s left 4 (Nat.le_refl 4),
    (hscan q 6 (Nat.le_refl 6)).trans (congrArg some htokens)⟩

end BoolQuery
