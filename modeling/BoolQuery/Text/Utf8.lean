import BoolQuery.Text.Basic

/-!
# UTF-8

Files and standard streams hold bytes. This module writes a text as bytes and reads bytes
back in two ways: strictly, where one ill-formed place refuses the whole, and lossily, where
every ill-formed place becomes the replacement character.

An ill-formed place is as long as the longest run of bytes that still begins some well-formed
character, and at least one byte long, so a character cut short costs one replacement and
never swallows the character after it.

## Main definitions

* `Utf8.encode`: the UTF-8 form of a text.
* `Utf8.first`: the character or ill-formed place that a non-empty byte string begins with.
* `Utf8.decode?`, `Utf8.decodeLossy`: the strict and the lossy reading.

## Main results

* `Utf8.pieces_cons`: the pieces of a byte string are its first one and those of the rest.
-/

namespace BoolQuery

/-- A string of bytes. -/
abbrev Bytes : Type := List UInt8

namespace Utf8

/-- The UTF-8 form of a text. -/
def encode (t : Text) : Bytes :=
  t.flatMap String.utf8EncodeChar

/-- What the first byte of a character of two to four bytes says of the bytes after it. -/
structure Lead where
  /-- The bits of the code point that the first byte carries. -/
  bits : Nat
  /-- The number of bytes that follow. -/
  count : Nat
  /-- The least second byte: a smaller one would spell a code point with too many bytes. -/
  low : UInt8 := 0x80
  /-- The greatest second byte: a greater one would spell a surrogate or pass U+10FFFF. -/
  high : UInt8 := 0xbf

/-- Reads a first byte; none when the byte begins no character of two to four bytes. -/
def Lead.ofByte? (b : UInt8) : Option Lead :=
  if b < 0xc2 then none
  else if b < 0xe0 then some { bits := b.toNat - 0xc0, count := 1 }
  else if b = 0xe0 then some { bits := 0, count := 2, low := 0xa0 }
  else if b = 0xed then some { bits := 0xd, count := 2, high := 0x9f }
  else if b < 0xf0 then some { bits := b.toNat - 0xe0, count := 2 }
  else if b = 0xf0 then some { bits := 0, count := 3, low := 0x90 }
  else if b = 0xf4 then some { bits := 4, count := 3, high := 0x8f }
  else if b < 0xf4 then some { bits := b.toNat - 0xf0, count := 3 }
  else none

/-- Reads `count` more bytes of a character whose bits so far are `bits`; the next of them
lies between `low` and `high`, the later ones between `0x80` and `0xbf`. Stops before the
first byte that does not fit. -/
def following (low high : UInt8) : (bits count : Nat) → Bytes → Option Char × Bytes
  | bits, 0, rest => (some (Char.ofNat bits), rest)
  | _, _ + 1, [] => (none, [])
  | bits, count + 1, b :: rest =>
    if low ≤ b ∧ b ≤ high then following 0x80 0xbf (bits * 64 + (b.toNat - 0x80)) count rest
    else (none, b :: rest)

/-- The first piece of the byte string `b :: rest`, a character or (`none`) an ill-formed
place, and the bytes after it. -/
def first (b : UInt8) (rest : Bytes) : Option Char × Bytes :=
  if b < 0x80 then (some (Char.ofNat b.toNat), rest)
  else match Lead.ofByte? b with
    | none => (none, rest)
    | some lead => following lead.low lead.high lead.bits lead.count rest

theorem length_following_le (low high : UInt8) (bits count : Nat) (rest : Bytes) :
    (following low high bits count rest).2.length ≤ rest.length := by
  induction rest generalizing low high bits count with
  | nil => cases count <;> simp [following]
  | cons b rest ih =>
    cases count with
    | zero => simp [following]
    | succ count =>
      rw [following]
      split
      · exact Nat.le_succ_of_le (ih _ _ _ _)
      · exact Nat.le_refl _

theorem length_first_le (b : UInt8) (rest : Bytes) :
    (first b rest).2.length ≤ rest.length := by
  rw [first]
  split
  · exact Nat.le_refl _
  · split
    · exact Nat.le_refl _
    · exact length_following_le _ _ _ _ _

/-- The pieces of a byte string, after those in `found`, the latest of which comes first. -/
def piecesFrom (found : List (Option Char)) : Bytes → List (Option Char)
  | [] => found.reverse
  | b :: rest => piecesFrom ((first b rest).1 :: found) (first b rest).2
termination_by bytes => bytes.length
decreasing_by exact Nat.lt_succ_of_le (length_first_le b rest)

/-- The characters and ill-formed places (`none`) of a byte string, in order. -/
def pieces (bytes : Bytes) : List (Option Char) :=
  piecesFrom [] bytes

theorem piecesFrom_eq_append (found : List (Option Char)) (bytes : Bytes) :
    ∀ before, piecesFrom (found ++ before) bytes = before.reverse ++ piecesFrom found bytes := by
  fun_induction piecesFrom found bytes with
  | case1 found => intro before; simp [piecesFrom]
  | case2 found b rest ih => intro before; rw [piecesFrom, ← ih before, List.cons_append]

@[simp] theorem pieces_nil : pieces [] = [] := by
  simp [pieces, piecesFrom]

/-- The pieces of a byte string are its first one and those of the rest. -/
theorem pieces_cons (b : UInt8) (rest : Bytes) :
    pieces (b :: rest) = (first b rest).1 :: pieces (first b rest).2 := by
  rw [pieces, piecesFrom, ← List.nil_append [_], piecesFrom_eq_append]
  rfl

/-- The text that a byte string spells, if all of it is well formed. -/
def decode? (bytes : Bytes) : Option Text :=
  (pieces bytes).mapM id

/-- The text that a byte string spells, with U+FFFD for each ill-formed place. -/
def decodeLossy (bytes : Bytes) : Text :=
  (pieces bytes).map fun piece => piece.getD '\ufffd'

end Utf8

end BoolQuery
