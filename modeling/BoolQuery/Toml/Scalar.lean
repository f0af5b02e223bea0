import BoolQuery.Toml.Value

/-!
# Unquoted Values

Numbers, truth values, dates and times are written without quotation marks. This module
decides what such a literal is. It goes by the look of a number: a literal may pass for an
integer here and yet spell none, which shows when the number is wanted.

## Main definitions

* `Toml.isInteger`, `Toml.isFloat`: the forms of numbers.
* `Toml.isDateTime`: dates, times, and dates with a time and perhaps an offset.
* `Toml.Value.ofLiteral?`: the value of a literal.
-/

namespace BoolQuery.Toml

/-! ### Numbers -/

/-- True for one or more digits, between which single underscores may stand. -/
def isDigits (isDigit : Char → Bool) (t : Text) : Bool :=
  (t.splitOn '_').all fun part => !part.isEmpty && part.all isDigit

/-- True for decimal digits that do not begin with a zero, and for the zero alone. -/
def isDecimal (t : Text) : Bool :=
  isDigits Char.isDigit t && (t.head? != some '0' || t.length == 1)

/-- The text without a sign in front of it. -/
def dropSign : Text → Text
  | '+' :: t => t
  | '-' :: t => t
  | t => t

/-- The value of a hexadecimal digit. -/
def hexValue? (c : Char) : Option Nat :=
  if c.isDigit then some (c.toNat - '0'.toNat)
  else if 'a' ≤ c ∧ c ≤ 'f' then some (c.toNat - 'a'.toNat + 10)
  else if 'A' ≤ c ∧ c ≤ 'F' then some (c.toNat - 'A'.toNat + 10)
  else none

/-- True for the digits `0` to `f`, upper case included. -/
def isHexDigit (c : Char) : Bool :=
  (hexValue? c).isSome

/-- True for digits that do not begin with a zero, with an optional sign. -/
def isLeadingGroup (t : Text) : Bool :=
  let digits := dropSign t
  !digits.isEmpty && digits.all Char.isDigit && digits.head? != some '0'

/-- True for two or more groups of characters separated by single underscores. All but the
first begin with a hexadecimal digit, and of these all but the last end with one; what else
stands in them is free, but for the marks of a float. -/
def isGrouped (t : Text) : Bool :=
  match t.splitOn '_' with
  | leading :: next :: others =>
    let groups := next :: others
    isLeadingGroup leading &&
      groups.all (fun g => (g.head?.map isHexDigit).getD false) &&
      groups.dropLast.all (fun g => (g.getLast?.map isHexDigit).getD false) &&
      !t.any fun c => c == '.' || c == 'e' || c == 'E'
  | _ => false

/-- True for what has the look of an integer: decimal with an optional sign, grouped by
underscores, or hexadecimal, octal or binary. Whether the groups hold decimal digits only, and
whether there is a digit at all behind `0x`, `0o` or `0b`, matters only to those who look at
the number. -/
def isInteger : Text → Bool
  | '0' :: 'x' :: t => t.isEmpty || isDigits isHexDigit t
  | '0' :: 'o' :: t => t.isEmpty || isDigits (fun c => '0' ≤ c && c ≤ '7') t
  | '0' :: 'b' :: t => t.isEmpty || isDigits (fun c => c == '0' || c == '1') t
  | t => isDecimal (dropSign t) || isGrouped t

/-- True for the part of a float before its exponent; the part after the point may be left
out only if there is an exponent. -/
def isMantissa (hasExponent : Bool) (t : Text) : Bool :=
  match t.splitOn '.' with
  | [whole] => hasExponent && isDecimal whole
  | [whole, fraction] => isDecimal whole && isDigits Char.isDigit fraction
  | _ => false

/-- True for a floating-point number. -/
def isFloat (t : Text) : Bool :=
  let t := dropSign t
  t == "inf".toList || t == "nan".toList ||
    match t.splitOnP fun c => c == 'e' || c == 'E' with
    | [mantissa] => isMantissa false mantissa
    | [mantissa, exponent] =>
      isMantissa true mantissa && isDigits Char.isDigit (dropSign exponent)
    | _ => false

/-! ### Dates and times -/

/-- The number that exactly `count` decimal digits at the front of a text spell, and the rest
of the text. -/
def takeNumber? (count : Nat) (t : Text) : Option (Nat × Text) :=
  let digits := t.take count
  if digits.length = count ∧ digits.all Char.isDigit then
    some (digits.foldl (fun n c => 10 * n + (c.toNat - '0'.toNat)) 0, t.drop count)
  else none

/-- The number of days of a month. -/
def daysInMonth (year month : Nat) : Nat :=
  if month = 2 then
    if year % 4 = 0 ∧ (year % 100 ≠ 0 ∨ year % 400 = 0) then 29 else 28
  else if month = 4 ∨ month = 6 ∨ month = 9 ∨ month = 11 then 30
  else 31

/-- The text after a date `2001-02-03` at the front. -/
def afterDate? (t : Text) : Option Text := do
  let (year, t) ← takeNumber? 4 t
  let (month, t) ← takeNumber? 2 (← t.after? ['-'])
  let (day, t) ← takeNumber? 2 (← t.after? ['-'])
  if 1 ≤ month ∧ month ≤ 12 ∧ 1 ≤ day ∧ day ≤ daysInMonth year month then some t else none

/-- The text after a two-digit number of at most `limit` at the front. -/
def afterPair? (limit : Nat) (t : Text) : Option Text := do
  let (n, t) ← takeNumber? 2 t
  if n ≤ limit then some t else none

/-- The text after the seconds of a time at the front, with an optional fraction. The second
60 is a leap second. -/
def afterSeconds? (t : Text) : Option Text := do
  let t ← afterPair? 60 t
  match t with
  | '.' :: rest =>
    if (rest.head?.map Char.isDigit).getD false then some (rest.dropWhile Char.isDigit) else none
  | _ => some t

/-- The text after a time `07:32` or `07:32:00.5` at the front. -/
def afterTime? (t : Text) : Option Text := do
  let t ← afterPair? 23 t
  let t ← afterPair? 59 (← t.after? [':'])
  match t with
  | ':' :: rest => afterSeconds? rest
  | _ => some t

/-- True for the offset of a time from universal time, and for none. -/
def isOffset : Text → Bool
  | [] => true
  | ['Z'] => true
  | ['z'] => true
  | c :: t =>
    (c == '+' || c == '-') &&
      (do afterPair? 59 (← (← afterPair? 23 t).after? [':'])) == some []

/-- True for a date, a time, or a date and a time with an optional offset. -/
def isDateTime (t : Text) : Bool :=
  match afterDate? t with
  | none => afterTime? t == some []
  | some [] => true
  | some (c :: rest) =>
    (c == 'T' || c == 't' || c == ' ') && ((afterTime? rest).map isOffset).getD false

/-- The value of a literal. -/
def Value.ofLiteral? (t : Text) : Option Value :=
  if t = "true".toList then some (.boolean true)
  else if t = "false".toList then some (.boolean false)
  else if isInteger t then some (.integer t)
  else if isFloat t then some (.float t)
  else if isDateTime t then some (.dateTime t)
  else none

end BoolQuery.Toml
