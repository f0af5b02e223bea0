import BoolQuery.Dialect.Basic
import BoolQuery.ParseError

/-!
# Bracket Balance

Brackets of the three classes must be matched and nested properly, all classes taken
together: in `(a[b)]` each class is balanced on its own, yet the query is refused. Brackets
inside quotes do not count.

## Main definitions

* `Balance`: the state of the check, and `Balance.step`, one character of it.
* `checkBalance`: the check of a whole query.
-/

namespace BoolQuery

/-- An opening bracket that waits for its closing one. -/
structure OpenBracket where
  /-- Its class. -/
  kind : BracketKind
  /-- Its byte offset in the query. -/
  position : Nat
  /-- The character itself. -/
  character : Char
deriving DecidableEq, Repr

/-- The state of the check between two characters. -/
structure Balance where
  /-- The byte offset of the next character. -/
  offset : Nat := 0
  /-- True between an opening and a closing quote. -/
  inQuote : Bool := false
  /-- The brackets that wait for their closing ones, innermost first. -/
  pending : List OpenBracket := []
deriving DecidableEq, Repr

namespace Balance

/-- The state after a closing bracket `c` of the class `kind`, which must close the innermost
bracket. -/
def close (b : Balance) (kind : BracketKind) (c : Char) : Except ParseError Balance :=
  match b.pending with
  | [] => .error { fault := .missingOpen, position := b.offset, character := some c }
  | top :: outer =>
    if top.kind = kind then .ok { b with pending := outer }
    else .error { fault := .missingOpen, position := b.offset, character := some c }

/-- The state after the bracket `c`, if it is one. -/
def bracket (b : Balance) (d : Dialect) (c : Char) : Except ParseError Balance :=
  match d.bracket? c with
  | none => .ok b
  | some ⟨kind, .opening⟩ => .ok { b with pending := ⟨kind, b.offset, c⟩ :: b.pending }
  | some ⟨kind, .closing⟩ => b.close kind c

/-- The state with the character `c` passed over. -/
def pass (b : Balance) (c : Char) : Balance :=
  { b with offset := b.offset + c.utf8Size }

/-- The state after the character `c`. A quote begins or ends a quoted part, in which
brackets do not count. -/
def step (d : Dialect) (b : Balance) (c : Char) : Except ParseError Balance :=
  if c = d.quote then .ok ({ b with inQuote := !b.inQuote }.pass c)
  else if b.inQuote then .ok (b.pass c)
  else (b.bracket d c).map (·.pass c)

/-- At the end no bracket may wait; the innermost one is at fault. -/
def finish (b : Balance) : Except ParseError Unit :=
  match b.pending with
  | [] => .ok ()
  | top :: _ =>
    .error { fault := .missingClose, position := top.position, character := some top.character }

end Balance

/-- Checks that the brackets of a query are balanced. -/
def checkBalance (d : Dialect) (q : Text) : Except ParseError Unit := do
  let b ← q.foldlM (Balance.step d) {}
  b.finish

end BoolQuery
