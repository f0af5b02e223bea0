import BoolQuery.Query.Basic

/-!
# Matching

A tree decides whether a candidate text matches, given a matcher that decides it for single
terms. The matcher may have effects: it is asked once for every leaf, from left to right,
whatever the answers are. The empty candidate matches nothing, not even a negation, and the
matcher is not asked.

## Main definitions

* `Node.acceptsM`, `Query.acceptsM`: matching with a matcher that may have effects.
* `Node.acceptsWith`, `Query.acceptsWith`: matching with a plain matcher.
* `Term.occursIn`: the usual matcher, which looks for the value and disregards the field.
* `Node.accepts`, `Query.accepts`: matching with the usual matcher.
-/

namespace BoolQuery

/-- True when the value of the term occurs in the candidate. -/
def Term.occursIn (t : Term) (candidate : Text) : Bool :=
  candidate.contains t.value

namespace Node

variable {m : Type → Type} [Monad m]

/-- Matches a candidate. At every node an empty candidate is refused before anything else, and
both sides of an operator are asked for a match whatever the first one answers. -/
def acceptsM (matcher : Term → Text → m Bool) (candidate : Text) (n : Node) : m Bool :=
  if candidate.isEmpty then pure false
  else
    match n with
    | .term t => matcher t candidate
    | .not child => do
      let a ← child.acceptsM matcher candidate
      pure !a
    | .and left right => do
      let a ← left.acceptsM matcher candidate
      let b ← right.acceptsM matcher candidate
      pure (a && b)
    | .or left right => do
      let a ← left.acceptsM matcher candidate
      let b ← right.acceptsM matcher candidate
      pure (a || b)

/-- Matches a candidate with a plain matcher. -/
def acceptsWith (matcher : Term → Text → Bool) (candidate : Text) (n : Node) : Bool :=
  Id.run (n.acceptsM (fun t c => pure (matcher t c)) candidate)

/-- Matches a candidate with the usual matcher. -/
def accepts (candidate : Text) (n : Node) : Bool :=
  n.acceptsWith Term.occursIn candidate

end Node

namespace Query

variable {m : Type → Type} [Monad m]

/-- Matches a candidate. The empty query matches nothing. -/
def acceptsM (matcher : Term → Text → m Bool) (candidate : Text) (q : Query) : m Bool :=
  match q.root with
  | none => pure false
  | some root => root.acceptsM matcher candidate

/-- Matches a candidate with a plain matcher. -/
def acceptsWith (matcher : Term → Text → Bool) (candidate : Text) (q : Query) : Bool :=
  Id.run (q.acceptsM (fun t c => pure (matcher t c)) candidate)

/-- Matches a candidate with the usual matcher. -/
def accepts (candidate : Text) (q : Query) : Bool :=
  q.acceptsWith Term.occursIn candidate

end Query

end BoolQuery
