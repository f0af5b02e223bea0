import BoolQuery.ParseError
import BoolQuery.Token.Basic

/-!
# Postfix Order

In postfix order an operator stands after its operands, and no parentheses are needed. The
tokens of a query are brought into this order in one pass: operands go straight to the
output, operators wait on a stack until an operator that binds no tighter, or the end of
their group, releases them.

`NOT` binds tightest, then `AND`, then `OR`; chains of `AND` or of `OR` group to the left, and
`NOT NOT a` is `NOT (NOT a)`. On the way the pass checks that operands and operators take
turns, so that the output is the postfix order of one expression.

## Main definitions

* `Operator.releases`: which waiting operators an incoming one releases.
* `Postfix`: the state of the pass, and `Postfix.step`, one token of it.
* `toPostfix`: the whole pass.
-/

namespace BoolQuery

/-- How tightly an operator binds. -/
def Operator.strength : Operator → Nat
  | .not => 3
  | .and => 2
  | .or => 1

/-- True when the waiting operator `top` goes to the output before `incoming` begins to wait:
it binds tighter, or equally tight and groups to the left. -/
def Operator.releases (incoming top : Operator) : Bool :=
  match top with
  | .not => incoming.strength < top.strength
  | .and | .or => incoming.strength ≤ top.strength

/-- The state of the pass between two tokens. -/
structure Postfix where
  /-- The output, latest token first. -/
  output : List Token := []
  /-- The operators and opening parentheses that wait, latest first. -/
  waiting : List Token := []
  /-- True when an operand must come next. -/
  wantsOperand : Bool := true
deriving DecidableEq, Repr

namespace Postfix

/-- Moves the waiting operators that `incoming` releases to the output; gives what still
waits and the output. -/
def release (incoming : Operator) : (waiting output : List Token) → List Token × List Token
  | [], output => ([], output)
  | top :: waiting, output =>
    match top.kind with
    | .operator op =>
      if incoming.releases op then release incoming waiting (top :: output)
      else (top :: waiting, output)
    | _ => (top :: waiting, output)

/-- Moves the waiting operators of the innermost group to the output and removes its opening
parenthesis; none when no group is open. -/
def closeGroup? : (waiting output : List Token) → Option (List Token × List Token)
  | [], _ => none
  | top :: waiting, output =>
    if top.kind = .openGroup then some (waiting, output)
    else closeGroup? waiting (top :: output)

/-- The state after a token. -/
def step (s : Postfix) (t : Token) : Except ParseError Postfix :=
  match t.kind with
  | .term _ =>
    if s.wantsOperand then .ok { s with output := t :: s.output, wantsOperand := false }
    else .error { fault := .missingOperator, position := t.position }
  | .openGroup =>
    if s.wantsOperand then .ok { s with waiting := t :: s.waiting }
    else .error { fault := .missingOperator, position := t.position }
  | .closeGroup =>
    if s.wantsOperand then .error { fault := .missingOperand, position := t.position }
    else match closeGroup? s.waiting s.output with
      | none => .error { fault := .missingOpen, position := t.position }
      | some (waiting, output) => .ok { s with waiting, output }
  | .operator op =>
    if op = .not && !s.wantsOperand then
      .error { fault := .missingOperator, position := t.position }
    else if op ≠ .not && s.wantsOperand then
      .error { fault := .missingOperand, position := t.position }
    else
      let (waiting, output) := release op s.waiting s.output
      .ok { waiting := t :: waiting, output, wantsOperand := true }

/-- At the end all that waits goes to the output. -/
def drain : (waiting output : List Token) → Except ParseError (List Token)
  | [], output => .ok output.reverse
  | top :: waiting, output =>
    if top.kind = .openGroup then .error { fault := .missingClose, position := top.position }
    else drain waiting (top :: output)

/-- The output of a finished pass over tokens of which `last` is the last one. Only the empty
row of tokens may leave an operand wanted. -/
def finish (s : Postfix) (last : Option Token) : Except ParseError (List Token) :=
  match last with
  | none => drain s.waiting s.output
  | some t =>
    if s.wantsOperand then .error { fault := .missingOperand, position := t.position }
    else drain s.waiting s.output

end Postfix

/-- Brings tokens into postfix order. -/
def toPostfix (ts : List Token) : Except ParseError (List Token) := do
  let s ← ts.foldlM Postfix.step {}
  s.finish ts.getLast?

end BoolQuery
