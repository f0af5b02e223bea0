import BoolQuery.Text.Range

/-!
# Text

Queries, candidates, keywords and messages are lists of characters. Places in a text are
byte offsets of its UTF-8 form, so that a place means the same to every reader of the file
or command line it came from; this module holds the two ways between bytes and characters
that the library needs, and the small vocabulary on texts that the other modules share.

## Main definitions

* `Text.byteSize`: the length of the UTF-8 form.
* `Text.charAt?`, `Text.column?`: the character that starts at a byte offset, and the number
  of characters before it.
* `Text.isBlank`: the Unicode property `White_Space`.
* `Text.trimStart`, `Text.trimEnd`: a text without its outer white space.
* `Text.after?`, `Text.startsWith`: what follows a given beginning, and the test for it.
* `Text.contains`: the substring test.
-/

namespace BoolQuery

/-- A text: its characters in reading order. -/
abbrev Text : Type := List Char

namespace Text

/-! ### Places -/

/-- The number of bytes of the UTF-8 form. -/
def byteSize (t : Text) : Nat :=
  t.foldl (fun n c => n + c.utf8Size) 0

/-- The character whose first byte is at `offset`: none inside a character, at the end, or
past it. -/
def charAt? : Text → (offset : Nat) → Option Char
  | [], _ => none
  | c :: _, 0 => some c
  | c :: t, n + 1 => if n + 1 < c.utf8Size then none else charAt? t (n + 1 - c.utf8Size)

/-- The column of `offset`, counted on from `seen`. -/
def columnFrom? : (seen : Nat) → Text → (offset : Nat) → Option Nat
  | seen, _, 0 => some seen
  | _, [], _ + 1 => none
  | seen, c :: t, n + 1 =>
    if n + 1 < c.utf8Size then none else columnFrom? (seen + 1) t (n + 1 - c.utf8Size)

/-- The number of characters before `offset`, when `offset` lies between two characters, at
the start or at the end. -/
def column? (t : Text) (offset : Nat) : Option Nat :=
  columnFrom? 0 t offset

/-! ### White space -/

/-- The ranges of the Unicode property `White_Space`. -/
def blankRanges : List (Nat × Nat) := [
  (0x9, 0xd), (0x20, 0x20), (0x85, 0x85), (0xa0, 0xa0), (0x1680, 0x1680), (0x2000, 0x200a),
  (0x2028, 0x2029), (0x202f, 0x202f), (0x205f, 0x205f), (0x3000, 0x3000)]

/-- True for white space: the Unicode property `White_Space`. -/
def isBlank (c : Char) : Bool :=
  inRanges blankRanges c

/-- The text without the white space it begins with. -/
def trimStart (t : Text) : Text :=
  t.dropWhile isBlank

/-- The text without the white space it ends in. -/
def trimEnd (t : Text) : Text :=
  (t.reverse.dropWhile isBlank).reverse

/-! ### Parts -/

/-- What follows a given beginning, in a text that begins with it. -/
def after? : (t front : Text) → Option Text
  | t, [] => some t
  | [], _ :: _ => none
  | c :: t, f :: front => if c = f then after? t front else none

/-- True when the text begins with `front`. -/
def startsWith : (t front : Text) → Bool
  | _, [] => true
  | [], _ :: _ => false
  | c :: t, f :: front => if c = f then startsWith t front else false

/-- True when `part` occurs in the text as a run of neighbouring characters. The empty text
occurs in every text. -/
def contains (t part : Text) : Bool :=
  match t with
  | [] => part.isEmpty
  | c :: rest => startsWith (c :: rest) part || contains rest part

/-! ### Laws -/

theorem byteSize_foldl (t : Text) (n : Nat) :
    t.foldl (fun n c => n + c.utf8Size) n = n + byteSize t := by
  induction t generalizing n with
  | nil => rfl
  | cons c t ih =>
    simp only [byteSize, List.foldl_cons, ih (n + c.utf8Size), ih (0 + c.utf8Size)]; omega

@[simp] theorem byteSize_nil : byteSize [] = 0 := rfl

@[simp] theorem byteSize_cons (c : Char) (t : Text) :
    byteSize (c :: t) = c.utf8Size + byteSize t := by
  rw [byteSize, List.foldl_cons, byteSize_foldl]; omega

@[simp] theorem byteSize_append (s t : Text) : byteSize (s ++ t) = byteSize s + byteSize t := by
  induction s with
  | nil => simp
  | cons c s ih => simp only [List.cons_append, byteSize_cons, ih]; omega

/-- Every character that the ASCII test of the core library calls white space is white
space. -/
theorem isBlank_of_isWhitespace {c : Char} (h : c.isWhitespace = true) : isBlank c = true := by
  simp only [Char.isWhitespace, Bool.or_eq_true, decide_eq_true_eq] at h
  rcases h with ((rfl | rfl) | rfl) | rfl <;> decide

/-- What follows a beginning completes it to the whole text. -/
theorem after?_eq_some_iff {t front rest : Text} :
    after? t front = some rest ↔ t = front ++ rest := by
  induction t generalizing front with
  | nil => cases front <;> simp [after?, eq_comm]
  | cons c t ih =>
    cases front with
    | nil => simp [after?]
    | cons f front =>
      simp only [after?, List.cons_append, List.cons.injEq]
      split
      · next h => simp [ih, h]
      · next h => simp [h]

theorem startsWith_eq_true_iff {t front : Text} : startsWith t front = true ↔ front <+: t := by
  induction t generalizing front with
  | nil => cases front <;> simp [startsWith]
  | cons c t ih =>
    cases front with
    | nil => simp [startsWith]
    | cons f front =>
      rw [startsWith, List.cons_prefix_cons]
      split
      · next h => simp [ih, h]
      · next h => simp [Ne.symm h]

/-- The substring test decides the relation "occurs as a run". -/
theorem contains_eq_true_iff {t part : Text} : contains t part = true ↔ part <:+: t := by
  induction t with
  | nil => simp [contains]
  | cons c rest ih =>
    rw [contains, Bool.or_eq_true, startsWith_eq_true_iff, ih, List.infix_cons_iff]

end Text

end BoolQuery
