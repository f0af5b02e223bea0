import BoolQuery.Toml.Scalar

/-!
# The Size of Numbers

A document may write numbers of any size, and keeps them as they are written. Whoever looks at a
value takes its numbers only if they have a machine form: an integer is spelled by digits of its
base and lies between `-2 ^ 127` and `2 ^ 128 - 1`, and a floating-point number rounds to a
finite number of double precision. Half of the last unit beyond the greatest such number rounds
up, so every magnitude from `2 ^ 1024 - 2 ^ 970` on is too large; none is too small.

## Main definitions

* `Toml.numberOf?`: the number that digits spell.
* `Toml.integerFits`, `Toml.floatFits`: literals with a machine form.
* `Toml.Value.fits`: values all numbers of which have one.
-/

namespace BoolQuery.Toml

/-- The number that digits of a base spell, the first digit weighing most. Underscores between
them do not count. None if there is no digit, or another character. -/
def numberOf? (base : Nat) (t : Text) : Option Nat := do
  let digits ← (t.filter (· != '_')).mapM hexValue?
  if digits.isEmpty || digits.any (base ≤ ·) then none
  else some (digits.foldl (fun n d => base * n + d) 0)

/-- True for the literals of integers from `-2 ^ 127` to `2 ^ 128 - 1`. -/
def integerFits : Text → Bool
  | '0' :: 'x' :: t => (numberOf? 16 t).any (· < Nat.pow 2 128)
  | '0' :: 'o' :: t => (numberOf? 8 t).any (· < Nat.pow 2 128)
  | '0' :: 'b' :: t => (numberOf? 2 t).any (· < Nat.pow 2 128)
  | '-' :: t => (numberOf? 10 t).any (· ≤ Nat.pow 2 127)
  | t => (numberOf? 10 (dropSign t)).any (· < Nat.pow 2 128)

/-- The exponent that decimal digits with an optional sign spell; zero if there are none. -/
def exponentOf : Text → Int
  | '-' :: t => -((numberOf? 10 t).getD 0 : Int)
  | t => (numberOf? 10 (dropSign t)).getD 0

/-- The least magnitude that rounds to infinity in double precision. -/
def overflowThreshold : Nat := Nat.pow 2 1024 - Nat.pow 2 970

/-- True for the literals of floating-point numbers that round to a finite number, and for the
names of the others. With `n` significant digits in front of the power `10 ^ e`, the number is
less than `10 ^ (n + e)` and at least `10 ^ (n + e - 1)`. Only where that leaves the answer
open is the number compared with the threshold, so a great exponent costs nothing. -/
def floatFits (literal : Text) : Bool :=
  let isMark := fun c => c == 'e' || c == 'E'
  let mantissa := literal.takeWhile fun c => !isMark c
  let digits := (mantissa.filter Char.isDigit).dropWhile (· == '0')
  let fraction := (mantissa.dropWhile (· != '.')).countP Char.isDigit
  let exponent := exponentOf ((literal.dropWhile fun c => !isMark c).drop 1) - fraction
  let magnitude := digits.length + exponent
  if digits.isEmpty || magnitude ≤ 308 then true
  else if 309 < magnitude then false
  else
    (numberOf? 10 digits).getD 0 * Nat.pow 10 exponent.toNat <
      overflowThreshold * Nat.pow 10 (-exponent).toNat

mutual

/-- True for the values all numbers of which have a machine form. -/
def Value.fits : Value → Bool
  | .integer literal => integerFits literal
  | .float literal => floatFits literal
  | .array _ items => allFit items
  | .table _ members => membersFit members
  | .string _ | .boolean _ | .dateTime _ => true

/-- True when all items of an array have a machine form. -/
def allFit : List Value → Bool
  | [] => true
  | v :: rest => v.fits && allFit rest

/-- True when all members of a table have a machine form. -/
def membersFit : List (Text × Value) → Bool
  | [] => true
  | (_, v) :: rest => v.fits && membersFit rest

end

end BoolQuery.Toml
