import BoolQuery.ParseError
import BoolQuery.Token.Basic
import BoolQuery.Token.Field

/-!
# Scanning a Query

The scanner goes through a query once, from left to right, and finds its tokens. At each turn
it looks at the next character and takes the first rule that applies:

1. a quote: the text up to the next quote belongs to the operand as it is;
2. a grouping character: a token;
3. a keyword that stands as a whole word: a token;
4. a field delimiter, if the operand has no field and nothing quoted yet: the text of the
   operand is a field specification;
5. any other character belongs to the operand.

The operand ends at the next grouping character, keyword, or end of the query, so terms may
consist of several words. White space around an operand does not belong to it, but quoted
white space does.

## Main definitions

* `Operand`: the operand being read.
* `Scanner`: the state of the scan, and `Scanner.step`, one turn of it.
* `scan`: the tokens of a query.

## Main results

* `Scanner.length_le_of_step`: a turn that begins at a character passes over it.
-/

namespace BoolQuery

/-! ### The operand being read -/

/-- The operand being read. Its text is held backwards, latest character first, in two parts:
up to the last closing quote, where white space stays, and after it, where white space at
the end will go. -/
structure Operand where
  /-- The text up to the last closing quote, backwards. -/
  kept : Text := []
  /-- The text after the last closing quote, backwards. -/
  loose : Text := []
  /-- The byte offset of the first character, once there is one. -/
  start : Option Nat := none
  /-- True when the text of the field or value being read has a quoted part. -/
  quoted : Bool := false
  /-- The field specification with the byte offset of its delimiter, once there was one. -/
  field : Option (FieldSpec × Nat) := none
deriving DecidableEq, Repr

namespace Operand

/-- The text of the operand so far. -/
def text (o : Operand) : Text :=
  (o.loose ++ o.kept).reverse

/-- The text without the white space at its end that is not quoted. -/
def trimmed (o : Operand) : Text :=
  (o.loose.dropWhile Text.isBlank ++ o.kept).reverse

/-- The operand with the character `c` of the offset `position` added. White space in front
of everything else is dropped. -/
def push (o : Operand) (position : Nat) (c : Char) : Operand :=
  if Text.isBlank c && o.loose.isEmpty && o.kept.isEmpty && !o.quoted then o
  else { o with start := some (o.start.getD position), loose := c :: o.loose }

/-- The operand with a quoted part added whose opening quote is at `position`. -/
def pushQuoted (o : Operand) (position : Nat) (content : Text) : Operand :=
  { o with
    start := some (o.start.getD position)
    quoted := true
    kept := content.reverse ++ (o.loose ++ o.kept)
    loose := [] }

/-- True when a field delimiter would end a field specification: there was none before, and
the text has no quoted part. -/
def acceptsField (o : Operand) : Bool :=
  o.field.isNone && !o.quoted

/-- The operand after a field delimiter at `position`: its text is the specification of the
field, and the text of the value begins. -/
def startField (o : Operand) (d : Dialect) (position : Nat) : Except ParseError Operand :=
  match FieldSpec.ofText? d o.trimmed with
  | none => .error { fault := .malformedField, position, character := some d.fieldDelimiter }
  | some field =>
    .ok { o with
      start := some (o.start.getD position)
      kept := []
      loose := []
      field := some (field, position) }

/-- The token of a finished operand; none when nothing but white space was read. A field
needs a value, which may be empty only if it is quoted. -/
def token? (o : Operand) (d : Dialect) : Except ParseError (Option Token) :=
  match o.start, o.field with
  | none, _ => .ok none
  | some start, none => .ok (some ⟨.term { value := o.trimmed }, start⟩)
  | some start, some (field, position) =>
    if o.trimmed.isEmpty && !o.quoted then
      .error { fault := .malformedField, position, character := some d.fieldDelimiter }
    else
      .ok (some ⟨.term {
        value := o.trimmed
        field := some field.name
        operator := field.operator
        modifier := field.modifier }, start⟩)

end Operand

/-! ### The scan -/

/-- The state of a scan between two turns. -/
structure Scanner where
  /-- The byte offset of the next character. -/
  offset : Nat := 0
  /-- True when a keyword may stand here: at the start and after white space, a grouping
  character or a keyword. -/
  atWordStart : Bool := true
  /-- The operand being read. -/
  operand : Operand := {}
  /-- The tokens found, latest first. -/
  found : List Token := []
deriving DecidableEq, Repr

namespace Scanner

/-- Ends the operand being read and begins another. -/
def finishOperand (s : Scanner) (d : Dialect) : Except ParseError Scanner :=
  match s.operand.token? d with
  | .error e => .error e
  | .ok token => .ok { s with operand := {}, found := token.toList ++ s.found }

/-- Passes over a token of `size` bytes, which ends the operand being read. -/
def passToken (s : Scanner) (d : Dialect) (kind : TokenKind) (size : Nat) :
    Except ParseError Scanner :=
  match s.finishOperand d with
  | .error e => .error e
  | .ok s' =>
    .ok { s' with
      offset := s.offset + size
      atWordStart := true
      found := ⟨kind, s.offset⟩ :: s'.found }

/-- Passes over a quoted part, the opening quote of which has just been seen. -/
def passQuoted (s : Scanner) (d : Dialect) (rest : Text) : Except ParseError (Scanner × Text) :=
  let content := rest.takeWhile fun c => c != d.quote
  match rest.dropWhile fun c => c != d.quote with
  | [] => .error { fault := .unclosedQuote, position := s.offset, character := some d.quote }
  | close :: after =>
    .ok ({ s with
      offset := s.offset + d.quote.utf8Size + Text.byteSize content + close.utf8Size
      atWordStart := false
      operand := s.operand.pushQuoted s.offset content }, after)

/-- One turn of the scan at the character `c`, before `rest`: the state after it, and the
text that is left. -/
def step (s : Scanner) (d : Dialect) (c : Char) (rest : Text) :
    Except ParseError (Scanner × Text) :=
  if c = d.quote then s.passQuoted d rest
  else if d.isGrouping c then
    (s.passToken d (if c = d.group.opening then .openGroup else .closeGroup) c.utf8Size).map
      (·, rest)
  else match if s.atWordStart then d.keywordAt? (c :: rest) else none with
    | some (op, after) =>
      (s.passToken d (.operator op) (Text.byteSize (d.keyword op))).map (·, after)
    | none =>
      if c = d.fieldDelimiter && s.operand.acceptsField then
        (s.operand.startField d s.offset).map fun operand =>
          ({ s with offset := s.offset + c.utf8Size, atWordStart := false, operand }, rest)
      else
        .ok ({ s with
          offset := s.offset + c.utf8Size
          atWordStart := Text.isBlank c
          operand := s.operand.push s.offset c }, rest)

theorem eq_of_map_eq_ok {α : Type} {r : Except ParseError α} {f : α → Scanner} {s : Scanner}
    {rest rest' : Text} (h : r.map (fun a => (f a, rest)) = .ok (s, rest')) : rest = rest' := by
  cases r with
  | error e => simp [Except.map] at h
  | ok a =>
    simp only [Except.map, Except.ok.injEq, Prod.mk.injEq] at h
    exact h.2

/-- A turn that begins at a character passes over it. -/
theorem length_le_of_step {s s' : Scanner} {d : Dialect} {c : Char} {rest rest' : Text}
    (h : s.step d c rest = .ok (s', rest')) : rest'.length ≤ rest.length := by
  unfold step at h
  split at h
  · unfold passQuoted at h
    split at h
    · simp at h
    · next close after hdrop =>
      simp only [Except.ok.injEq, Prod.mk.injEq] at h
      have := (List.dropWhile_suffix (l := rest) fun c => c != d.quote).length_le
      rw [hdrop, List.length_cons, h.2] at this
      omega
  split at h
  · exact Nat.le_of_eq (congrArg List.length (eq_of_map_eq_ok h).symm)
  split at h
  · next op after hk =>
    split at hk
    · have := Dialect.length_lt_of_keywordAt? hk
      rw [List.length_cons, eq_of_map_eq_ok h] at this
      exact Nat.le_of_lt_succ this
    · simp at hk
  split at h
  · exact Nat.le_of_eq (congrArg List.length (eq_of_map_eq_ok h).symm)
  · simp only [Except.ok.injEq, Prod.mk.injEq] at h
    exact h.2 ▸ Nat.le_refl _

/-- Scans to the end of the query, and ends the last operand there. -/
def run (s : Scanner) (d : Dialect) : Text → Except ParseError Scanner
  | [] => s.finishOperand d
  | c :: rest =>
    match _hstep : s.step d c rest with
    | .error e => .error e
    | .ok (s', rest') => s'.run d rest'
termination_by t => t.length
decreasing_by exact Nat.lt_succ_of_le (length_le_of_step _hstep)

end Scanner

/-- The tokens of a query, in order. Whether brackets match is not looked at. -/
def scan (d : Dialect) (q : Text) : Except ParseError (List Token) :=
  match Scanner.run {} d q with
  | .error e => .error e
  | .ok s => .ok s.found.reverse

end BoolQuery
