import BoolQuery.Proofs.Fold
import BoolQuery.Proofs.Text.Place
import BoolQuery.Proofs.Text.Trim
import BoolQuery.Proofs.Token.Field
import BoolQuery.Token.Scanner

/-!
# Scanning by Byte Offsets

The scanner as it works on a query in its UTF-8 form: it takes one character at a time, remembers
places as byte offsets, and cuts texts there. The text of an operand is one text with the size it
had at the last closing quote, a keyword is looked for in what is left of the query behind an
offset, and the characters of a keyword are passed over up to an offset.

A cut past the end of a text or inside a character would be the end of such a program. It never
comes to this, because every state keeps the invariant `IndexedScanner.Consistent`: the sizes that
are remembered are the sizes of fronts of the texts they belong to.

## Main definitions

* `IndexedOperand`, `IndexedScanner`: the operand being read and the state between two characters.
* `IndexedScanner.step`: one character.
* `indexedScan`: the tokens of a query.
* `IndexedOperand.Consistent`, `IndexedScanner.Consistent`: the invariant.

## Main results

* `IndexedScanner.Consistent.step`, `IndexedScanner.consistent_of_foldlM`: every character keeps the
  invariant, and every run does.
* `IndexedOperand.Consistent.exists_trimmed`, `IndexedScanner.Consistent.keywordAt_eq`: in a
  consistent state all cuts are possible.
-/

namespace BoolQuery

/-- Why a scan by offsets ends early. -/
inductive Stop where
  /-- The query has a fault. -/
  | fault (e : ParseError)
  /-- A text was to be cut past its end or inside a character. -/
  | badCut
deriving DecidableEq, Repr

/-- Cuts a text in two at a byte offset, where that is possible. -/
def Text.cut (t : Text) (offset : Nat) : Except Stop (Text × Text) :=
  match t.cut? offset with
  | none => .error .badCut
  | some parts => .ok parts

/-- A text can be cut behind a front. -/
theorem Text.cut_append (front rest : Text) :
    (front ++ rest).cut (byteSize front) = .ok (front, rest) := by
  rw [cut, cut?_eq_some_iff.mpr ⟨rfl, rfl⟩]

/-! ### The operand being read -/

/-- The operand being read, its text in reading order. -/
structure IndexedOperand where
  /-- The text of the field or value so far. -/
  text : Text := []
  /-- The byte offset of the first character, once there is one. -/
  start : Option Nat := none
  /-- True when the text of the field or value being read has a quoted part. -/
  quoted : Bool := false
  /-- The size of the text at the last closing quote: up to here white space stays. -/
  quotedEnd : Nat := 0
  /-- The field specification with the byte offset of its delimiter, once there was one. -/
  field : Option (FieldSpec × Nat) := none
deriving DecidableEq, Repr

namespace IndexedOperand

/-- The operand with a character of the offset `position` added. White space in front of
everything else is dropped. -/
def push (o : IndexedOperand) (position : Nat) (c : Char) : IndexedOperand :=
  if Text.isBlank c && o.text.isEmpty && !o.quoted then o
  else { o with start := some (o.start.getD position), text := o.text ++ [c] }

/-- The operand behind an opening quote at `position`. -/
def openQuote (o : IndexedOperand) (position : Nat) : IndexedOperand :=
  { o with start := some (o.start.getD position), quoted := true }

/-- The operand with quoted text added. -/
def append (o : IndexedOperand) (content : Text) : IndexedOperand :=
  { o with text := o.text ++ content }

/-- The operand behind a closing quote. -/
def closeQuote (o : IndexedOperand) : IndexedOperand :=
  { o with quotedEnd := Text.byteSize o.text }

/-- True when a field delimiter would end a field specification. -/
def acceptsField (o : IndexedOperand) : Bool :=
  o.field.isNone && !o.quoted

/-- The text without the white space at its end, up to the last closing quote. -/
def trimmed (o : IndexedOperand) : Except Stop Text :=
  (o.text.cut (max (Text.byteSize o.text.trimEnd) o.quotedEnd)).map Prod.fst

/-- The operand after a field delimiter at `position`. Its text is taken for the specification of
the field; nothing else is reset. -/
def startField (o : IndexedOperand) (d : Dialect) (position : Nat) :
    Except Stop IndexedOperand := do
  let spec ← o.trimmed
  match FieldSpec.ofText? d spec with
  | none => .error (.fault { fault := .malformedField, position,
                             character := some d.fieldDelimiter })
  | some field =>
    .ok { o with
      text := []
      start := some (o.start.getD position)
      field := some (field, position) }

/-- The token of a finished operand; none when nothing but white space was read. -/
def token? (o : IndexedOperand) (d : Dialect) : Except Stop (Option Token) :=
  match o.start with
  | none => .ok none
  | some start => do
    let value ← o.trimmed
    match o.field with
    | none => .ok (some ⟨.term { value }, start⟩)
    | some (field, position) =>
      if value.isEmpty && !o.quoted then
        .error (.fault { fault := .malformedField, position, character := some d.fieldDelimiter })
      else
        .ok (some ⟨.term {
          value
          field := some field.name
          operator := field.operator
          modifier := field.modifier }, start⟩)

end IndexedOperand

/-! ### The scan -/

/-- The state of a scan between two characters. -/
structure IndexedScanner where
  /-- The byte offset of the next character. -/
  offset : Nat := 0
  /-- True when a keyword may stand here. -/
  atWordStart : Bool := true
  /-- The operand being read. -/
  operand : IndexedOperand := {}
  /-- The tokens found, latest first. -/
  found : List Token := []
  /-- The byte offset of the opening quote, inside quotes. -/
  quote : Option Nat := none
  /-- The byte offset of the end of the last keyword. -/
  keywordEnd : Nat := 0
deriving DecidableEq, Repr

/-- The operator and the text behind its keyword, when that stands at the front of `rest` as a
whole word. -/
def Dialect.cutKeyword (d : Dialect) (rest : Text) (op : Operator) :
    Except Stop (Option (Operator × Text)) :=
  if rest.startsWith (d.keyword op) then
    (rest.cut (Text.byteSize (d.keyword op))).map fun parts =>
      if parts.2.head?.all d.endsWord then some (op, parts.2) else none
  else .ok none

namespace IndexedScanner

/-- The operator whose keyword stands here as a whole word; the longest keyword, if there are
several. -/
def keywordAt (s : IndexedScanner) (d : Dialect) (q : Text) :
    Except Stop (Option (Operator × Text)) :=
  if s.atWordStart then do
    let parts ← q.cut s.offset
    let found ← Operator.all.mapM (d.cutKeyword parts.2)
    .ok ((found.filterMap id).maxOn? fun found => Text.byteSize (d.keyword found.1))
  else .ok none

/-- Ends the operand being read and begins another. -/
def finishOperand (s : IndexedScanner) (d : Dialect) : Except Stop IndexedScanner :=
  (s.operand.token? d).map fun token =>
    { s with operand := {}, found := token.toList ++ s.found }

/-- Puts a mark behind the operand, which it ends. -/
def passToken (s : IndexedScanner) (d : Dialect) (kind : TokenKind) : Except Stop IndexedScanner :=
  (s.finishOperand d).map fun s' =>
    { s' with atWordStart := true, found := ⟨kind, s.offset⟩ :: s'.found }

/-- The state after a character has been taken. -/
def advance (s : IndexedScanner) (c : Char) : IndexedScanner :=
  { s with offset := s.offset + c.utf8Size }

/-- What a character does inside quotes. -/
def readQuoted (s : IndexedScanner) (d : Dialect) (c : Char) : IndexedScanner :=
  if c = d.quote then
    { s with operand := s.operand.closeQuote, quote := none, atWordStart := false }
  else { s with operand := s.operand.append [c] }

/-- What a character does outside quotes and behind the last keyword. -/
def turn (s : IndexedScanner) (d : Dialect) (q : Text) (c : Char) : Except Stop IndexedScanner :=
  if c = d.quote then
    .ok { s with operand := s.operand.openQuote s.offset, quote := some s.offset }
  else if d.isGrouping c then
    s.passToken d (if c = d.group.opening then .openGroup else .closeGroup)
  else do
    match ← s.keywordAt d q with
    | some (op, _) =>
      (s.passToken d (.operator op)).map fun s' =>
        { s' with keywordEnd := s.offset + Text.byteSize (d.keyword op) }
    | none =>
      if c = d.fieldDelimiter && s.operand.acceptsField then
        (s.operand.startField d s.offset).map fun operand =>
          { s with atWordStart := false, operand }
      else
        .ok { s with atWordStart := Text.isBlank c, operand := s.operand.push s.offset c }

/-- The state after the character `c` of the query `q`. -/
def step (d : Dialect) (q : Text) (s : IndexedScanner) (c : Char) : Except Stop IndexedScanner :=
  if s.offset < s.keywordEnd then .ok (s.advance c)
  else match s.quote with
    | some _ => .ok ((s.readQuoted d c).advance c)
    | none => (s.turn d q c).map (·.advance c)

/-- The end of the query: it may not be inside quotes, and it ends the last operand. -/
def finish (s : IndexedScanner) (d : Dialect) : Except Stop IndexedScanner :=
  match s.quote with
  | some position =>
    .error (.fault { fault := .unclosedQuote, position, character := some d.quote })
  | none => s.finishOperand d

/-- The scan of what is left of a query. -/
def goOn (s : IndexedScanner) (d : Dialect) (q rest : Text) : Except Stop IndexedScanner := do
  let s' ← rest.foldlM (step d q) s
  s'.finish d

end IndexedScanner

/-- The tokens of a query, in order. -/
def indexedScan (d : Dialect) (q : Text) : Except Stop (List Token) :=
  (IndexedScanner.goOn {} d q q).map fun s => s.found.reverse

/-! ### The invariant -/

variable {d : Dialect} {q read rest : Text} {c : Char}

namespace IndexedOperand

variable {o o' : IndexedOperand} {position : Nat}

/-- What holds of the operand in every state. -/
structure Consistent (d : Dialect) (o : IndexedOperand) : Prop where
  /-- The last quoted part ends inside the text, between two characters. -/
  quotedEnd : o.text.IsPlace o.quotedEnd
  /-- Without a quoted part there is no end of one, and the text begins with something else than
  white space. -/
  unquoted : o.quoted = false → o.quotedEnd = 0 ∧ ∀ c ∈ o.text.head?, Text.isBlank c = false
  /-- An operand that has not begun is empty. -/
  empty : o.start = none → o.text = [] ∧ o.field = none ∧ o.quoted = false
  /-- The quote is not part of the text. -/
  quote : d.quote ∉ o.text
  /-- The field has a name, and its parts are not empty and have no brackets. -/
  field : ∀ f ∈ o.field, f.1.WellFormed d

/-- The operand at the start of a segment. -/
theorem consistent_empty (d : Dialect) : Consistent d {} where
  quotedEnd := Text.isPlace_byteSize []
  unquoted := fun _ => ⟨rfl, by simp⟩
  empty := fun _ => ⟨rfl, rfl, rfl⟩
  quote := by simp
  field := by simp

namespace Consistent

/-- **In a consistent state the text can be cut** where it is trimmed. -/
theorem exists_trimmed (h : o.Consistent d) : ∃ value, o.trimmed = .ok value := by
  have htrim : o.text.IsPlace (Text.byteSize o.text.trimEnd) := ⟨_, o.text.trimEnd_prefix, rfl⟩
  obtain ⟨front, ⟨rest, htext⟩, hsize⟩ := htrim.max h.quotedEnd
  refine ⟨front, ?_⟩
  rw [trimmed, ← hsize, ← htext, Text.cut_append]
  rfl

/-- A character outside quotes that is no quote. -/
theorem push (h : o.Consistent d) (hc : c ≠ d.quote) : (o.push position c).Consistent d := by
  rw [IndexedOperand.push]
  split
  · exact h
  · next hkeep =>
    refine ⟨h.quotedEnd.append [c], fun hquoted => ⟨(h.unquoted hquoted).1, ?_⟩, nofun, ?_, h.field⟩
    · cases htext : o.text with
      | nil =>
          have hunquoted : o.quoted = false := hquoted
          simpa [htext, hunquoted] using hkeep
      | cons k text => simpa [htext] using (h.unquoted hquoted).2
    · simpa using ⟨h.quote, hc.symm⟩

/-- An opening quote. -/
theorem openQuote (h : o.Consistent d) : (o.openQuote position).Consistent d :=
  ⟨h.quotedEnd, nofun, nofun, h.quote, h.field⟩

/-- A character inside quotes. -/
theorem append (h : o.Consistent d) (hquoted : o.quoted = true) (hc : c ≠ d.quote) :
    (o.append [c]).Consistent d := by
  have hunquoted : o.quoted ≠ false := by simp [hquoted]
  refine ⟨h.quotedEnd.append [c], fun hq => absurd hq hunquoted,
    fun hstart => absurd (h.empty hstart).2.2 hunquoted, ?_, h.field⟩
  simpa [IndexedOperand.append] using ⟨h.quote, hc.symm⟩

/-- A closing quote. -/
theorem closeQuote (h : o.Consistent d) (hquoted : o.quoted = true) : o.closeQuote.Consistent d :=
  ⟨Text.isPlace_byteSize _, fun hq => absurd hq (by simp [IndexedOperand.closeQuote, hquoted]),
    h.empty, h.quote, h.field⟩

/-- A field delimiter. The end of the last quoted part is not reset, and need not be: a
specification has no quoted part. -/
theorem startField (hd : d.Sound) (h : o.Consistent d) (hquoted : o.quoted = false)
    (hstart : o.startField d position = .ok o') : o'.Consistent d := by
  obtain ⟨spec, hspec⟩ := h.exists_trimmed
  have hend := (h.unquoted hquoted).1
  rw [IndexedOperand.startField, hspec] at hstart
  cases hfield : FieldSpec.ofText? d spec with
  | none => simp [hfield, bind, Except.bind] at hstart
  | some f =>
      obtain rfl : _ = o' := by simpa [hfield, bind, Except.bind] using hstart
      refine ⟨?_, fun _ => ⟨hend, by simp⟩, nofun, by simp, ?_⟩
      · simpa [hend] using Text.isPlace_byteSize []
      · simpa using ((FieldSpec.ofText?_eq_some_iff hd).mp hfield).2

end Consistent

end IndexedOperand

/-! ### Steps of the scan -/

/-- A keyword is found by offsets where it stands. -/
theorem Dialect.Sound.cutKeyword_eq (hd : d.Sound) (rest : Text) (op : Operator) :
    d.cutKeyword rest op = .ok ((d.afterKeyword? rest op).map (op, ·)) := by
  obtain ⟨k, ks, hkeyword, -⟩ := hd.exists_keyword_eq_cons op
  have hafter : d.afterKeyword? rest op =
      (rest.after? (d.keyword op)).filter fun after => after.head?.all d.endsWord := by
    rw [Dialect.afterKeyword?, hkeyword]
  rw [cutKeyword, hafter]
  by_cases hfront : d.keyword op <+: rest
  · obtain ⟨after, rfl⟩ := hfront
    rw [if_pos (Text.startsWith_eq_true_iff.mpr (List.prefix_append _ _)), Text.cut_append,
      Text.after?_eq_some_iff.mpr rfl]
    cases hend : after.head?.all d.endsWord <;> simp [Except.map, Option.filter, hend]
  · have hnone : rest.after? (d.keyword op) = none := Option.eq_none_iff_forall_ne_some.mpr
      fun after h => hfront ⟨after, (Text.after?_eq_some_iff.mp h).symm⟩
    rw [if_neg (mt Text.startsWith_eq_true_iff.mp hfront), hnone]
    rfl

namespace IndexedScanner

variable {s s' : IndexedScanner} {kind : TokenKind}

/-- What holds of every state of a scan, of which `read` is behind it. -/
structure Consistent (d : Dialect) (read : Text) (s : IndexedScanner) : Prop where
  /-- The scanner is behind what it has read. -/
  offset : s.offset = Text.byteSize read
  /-- The operand is as it should be. -/
  operand : s.operand.Consistent d
  /-- Inside quotes the operand has a quoted part. -/
  quoted : s.quote ≠ none → s.operand.quoted = true

/-- The start of the query. -/
theorem consistent_start (d : Dialect) : Consistent d [] {} where
  offset := rfl
  operand := IndexedOperand.consistent_empty d
  quoted := absurd rfl

namespace Consistent

/-- **In a consistent state keywords are found**, and the query and what is left of it can be cut
for this. -/
theorem keywordAt_eq (hd : d.Sound) (h : s.Consistent d read) (rest : Text) :
    s.keywordAt d (read ++ rest) = .ok (if s.atWordStart then d.keywordAt? rest else none) := by
  have hcut : d.cutKeyword rest = fun op => pure ((d.afterKeyword? rest op).map (op, ·)) :=
    funext (hd.cutKeyword_eq rest)
  rw [keywordAt]
  split
  · rw [h.offset, Text.cut_append]
    simp only [hcut, bind, Except.bind, List.mapM_pure]
    simp [pure, Except.pure, List.filterMap_map, Dialect.keywordAt?]
  · rfl

/-- A character that has been taken has been read. -/
theorem advance (h : s.Consistent d read) (c : Char) :
    (s.advance c).Consistent d (read ++ [c]) where
  offset := by simp [IndexedScanner.advance, h.offset]
  operand := h.operand
  quoted := h.quoted

/-- A character inside quotes. -/
theorem readQuoted (h : s.Consistent d read) (hquote : s.quote ≠ none) (c : Char) :
    (s.readQuoted d c).Consistent d read := by
  have hquoted := h.quoted hquote
  rw [IndexedScanner.readQuoted]
  split
  · exact ⟨h.offset, h.operand.closeQuote hquoted, absurd rfl⟩
  · next hc => exact ⟨h.offset, h.operand.append hquoted hc, fun _ => hquoted⟩

/-- A mark ends the operand, and the next one is empty. -/
theorem passToken (h : s.Consistent d read) (hquote : s.quote = none)
    (hpass : s.passToken d kind = .ok s') : s'.Consistent d read := by
  obtain ⟨mid, hfinish, rfl⟩ := map_eq_ok_iff.mp hpass
  obtain ⟨token, -, rfl⟩ := map_eq_ok_iff.mp hfinish
  exact ⟨h.offset, IndexedOperand.consistent_empty d, fun hne => absurd hquote hne⟩

/-- A character outside quotes. -/
theorem turn (hd : d.Sound) (h : s.Consistent d read) (hquote : s.quote = none)
    (hturn : s.turn d (read ++ rest) c = .ok s') : s'.Consistent d read := by
  rw [IndexedScanner.turn] at hturn
  split at hturn
  · obtain rfl := Except.ok.inj hturn
    exact ⟨h.offset, h.operand.openQuote, fun _ => rfl⟩
  next hc =>
  split at hturn
  · exact h.passToken hquote hturn
  rw [h.keywordAt_eq hd] at hturn
  simp only [bind, Except.bind] at hturn
  split at hturn
  · obtain ⟨mid, hpass, rfl⟩ := map_eq_ok_iff.mp hturn
    have hmid := h.passToken hquote hpass
    exact ⟨hmid.offset, hmid.operand, hmid.quoted⟩
  split at hturn
  · next hfield =>
    obtain ⟨o', hstart, rfl⟩ := map_eq_ok_iff.mp hturn
    have hquoted : s.operand.quoted = false := by
      simp only [IndexedOperand.acceptsField, Bool.and_eq_true, Bool.not_eq_true'] at hfield
      exact hfield.2.2
    exact ⟨h.offset, h.operand.startField hd hquoted hstart, fun hne => absurd hquote hne⟩
  · obtain rfl := Except.ok.inj hturn
    exact ⟨h.offset, h.operand.push hc, fun hne => absurd hquote hne⟩

/-- **Every character keeps the invariant.** -/
theorem step (hd : d.Sound) (h : s.Consistent d read)
    (hstep : IndexedScanner.step d (read ++ c :: rest) s c = .ok s') :
    s'.Consistent d (read ++ [c]) := by
  rw [IndexedScanner.step] at hstep
  split at hstep
  · obtain rfl := Except.ok.inj hstep
    exact h.advance c
  split at hstep
  · next hquote =>
    obtain rfl := Except.ok.inj hstep
    exact (h.readQuoted (by simp [hquote]) c).advance c
  · next hquote =>
    obtain ⟨mid, hturn, rfl⟩ := map_eq_ok_iff.mp hstep
    exact (h.turn hd hquote hturn).advance c

end Consistent

/-- **Every run keeps the invariant.** -/
theorem consistent_of_foldlM {more : Text} (hd : d.Sound) (h : s.Consistent d read)
    (hrun : more.foldlM (step d (read ++ (more ++ rest))) s = .ok s') :
    s'.Consistent d (read ++ more) := by
  induction more generalizing s read with
  | nil =>
      obtain rfl := Except.ok.inj hrun
      simpa using h
  | cons c more ih =>
      obtain ⟨mid, hstep, hmore⟩ := foldlM_cons_eq_ok_iff.mp hrun
      have hmid := h.step hd hstep
      rw [List.cons_append, List.append_cons] at hmore
      rw [List.append_cons]
      exact ih hmid hmore

end IndexedScanner

end BoolQuery
