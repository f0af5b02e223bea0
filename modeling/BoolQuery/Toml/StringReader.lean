import BoolQuery.Toml.Scalar

/-!
# Reading TOML Strings

The four written forms of strings, read from the front of a text. Each reader begins behind
the opening marks and gives the string with the text behind the closing marks.

## Main definitions

* `Toml.readEscape?`: what an escape stands for.
* `Toml.readBasic?`, `Toml.readLiteral?`: strings on one line.
* `Toml.readMultilineBasic?`, `Toml.readMultilineLiteral?`: strings on several lines.
* `Toml.readString?`: a string in any form.
-/

namespace BoolQuery.Toml

/-! ### Blanks and line ends -/

/-- True for the blanks within a line. -/
def isSpace (c : Char) : Bool :=
  c == ' ' || c == '\t'

/-- The text behind a line end at the front: a line feed, perhaps with a carriage return
before it. -/
def afterNewline? : Text → Option Text
  | '\n' :: t => some t
  | '\r' :: '\n' :: t => some t
  | _ => none

/-- The text without the blanks and line ends at its front. -/
def skipSpace : Text → Text
  | ' ' :: t => skipSpace t
  | '\t' :: t => skipSpace t
  | '\n' :: t => skipSpace t
  | '\r' :: '\n' :: t => skipSpace t
  | t => t

/-- True for the characters that may stand for themselves within a line: all but the ASCII
controls, of which the tab may. -/
def isPlain (c : Char) : Bool :=
  (0x20 ≤ c.toNat || c == '\t') && c != '\x7f'

/-! ### Escapes -/

/-- The character whose code point is written in exactly `count` hexadecimal digits. -/
def readCodePoint? (count : Nat) (t : Text) : Option (Char × Text) := do
  let digits ← (t.take count).mapM hexValue?
  let n := digits.foldl (fun n v => 16 * n + v) 0
  if digits.length = count ∧ n.isValidChar then some (Char.ofNat n, t.drop count) else none

/-- What an escape stands for, read behind its backslash. -/
def readEscape? : Text → Option (Char × Text)
  | 'b' :: t => some ('\x08', t)
  | 't' :: t => some ('\t', t)
  | 'n' :: t => some ('\n', t)
  | 'f' :: t => some ('\x0c', t)
  | 'r' :: t => some ('\r', t)
  | 'e' :: t => some ('\x1b', t)
  | '"' :: t => some ('"', t)
  | '\\' :: t => some ('\\', t)
  | 'x' :: t => readCodePoint? 2 t
  | 'u' :: t => readCodePoint? 4 t
  | 'U' :: t => readCodePoint? 8 t
  | _ => none

theorem length_le_of_readCodePoint? {count : Nat} {t rest : Text} {c : Char}
    (h : readCodePoint? count t = some (c, rest)) : rest.length ≤ t.length := by
  simp only [readCodePoint?, Option.bind_eq_bind, Option.bind_eq_some_iff] at h
  obtain ⟨_, _, h⟩ := h
  split at h
  · obtain ⟨_, rfl⟩ := Prod.mk.inj (Option.some.inj h)
    simp
  · simp at h

/-- An escape takes up something. -/
theorem length_lt_of_readEscape? {t rest : Text} {c : Char}
    (h : readEscape? t = some (c, rest)) : rest.length < t.length := by
  unfold readEscape? at h
  split at h
  case h_12 => simp at h
  case h_9 | h_10 | h_11 => exact Nat.lt_succ_of_le (length_le_of_readCodePoint? h)
  all_goals
    obtain ⟨_, rfl⟩ := Prod.mk.inj (Option.some.inj h)
    simp

/-! ### Strings on one line -/

/-- Puts `c` in front of the string that was read. -/
def consRead (c : Char) (read : Option (Text × Text)) : Option (Text × Text) :=
  read.map fun r => (c :: r.1, r.2)

/-- The rest of a basic string. -/
def readBasic? (t : Text) : Option (Text × Text) :=
  match t with
  | [] => none
  | '"' :: rest => some ([], rest)
  | '\\' :: rest =>
    match _hesc : readEscape? rest with
    | none => none
    | some (c, rest') => consRead c (readBasic? rest')
  | c :: rest => if isPlain c then consRead c (readBasic? rest) else none
termination_by t.length
decreasing_by
  · exact Nat.lt_succ_of_lt (length_lt_of_readEscape? _hesc)
  · simp

/-- The rest of a literal string. -/
def readLiteral? : Text → Option (Text × Text)
  | [] => none
  | '\'' :: rest => some ([], rest)
  | c :: rest => if isPlain c then consRead c (readLiteral? rest) else none

/-! ### Strings on several lines -/

/-- What stands behind three closing marks still belongs to the string, if it is up to two
more marks. -/
def closeMultiline (mark : Char) : Text → Text × Text
  | c₁ :: c₂ :: rest =>
    if c₁ = mark then
      if c₂ = mark then ([mark, mark], rest) else ([mark], c₂ :: rest)
    else ([], c₁ :: c₂ :: rest)
  | [c] => if c = mark then ([mark], []) else ([], [c])
  | [] => ([], [])

/-- The text without the line end directly behind opening marks. -/
def dropNewline (t : Text) : Text :=
  (afterNewline? t).getD t

/-- The text behind a line continuation: blanks up to the line end, then all blanks and line
ends. Read behind its backslash. -/
def afterContinuation? (t : Text) : Option Text :=
  (afterNewline? (t.dropWhile isSpace)).map skipSpace

theorem length_lt_of_afterNewline? {t rest : Text} (h : afterNewline? t = some rest) :
    rest.length < t.length := by
  unfold afterNewline? at h
  split at h
  · obtain rfl := Option.some.inj h; simp
  · obtain rfl := Option.some.inj h; simp only [List.length_cons]; omega
  · simp at h

theorem length_skipSpace_le (t : Text) : (skipSpace t).length ≤ t.length := by
  fun_induction skipSpace t with
  | case1 t ih | case2 t ih | case3 t ih => exact Nat.le_succ_of_le ih
  | case4 t ih => exact Nat.le_succ_of_le (Nat.le_succ_of_le ih)
  | case5 t => exact Nat.le_refl _

/-- A line continuation takes up something. -/
theorem length_lt_of_afterContinuation? {t rest : Text} (h : afterContinuation? t = some rest) :
    rest.length < t.length := by
  obtain ⟨u, hu, rfl⟩ := Option.map_eq_some_iff.1 h
  have h₁ := length_skipSpace_le u
  have h₂ := length_lt_of_afterNewline? hu
  have h₃ := (List.dropWhile_suffix (l := t) isSpace).length_le
  omega

/-- The rest of a basic string on several lines. -/
def readMultilineBasic? (t : Text) : Option (Text × Text) :=
  match t with
  | [] => none
  | '"' :: '"' :: '"' :: rest => some (closeMultiline '"' rest)
  | '\\' :: rest =>
    match _hcont : afterContinuation? rest with
    | some rest' => readMultilineBasic? rest'
    | none =>
      match _hesc : readEscape? rest with
      | none => none
      | some (c, rest') => consRead c (readMultilineBasic? rest')
  | '\r' :: '\n' :: rest => consRead '\r' (consRead '\n' (readMultilineBasic? rest))
  | c :: rest =>
    if isPlain c || c == '\n' then consRead c (readMultilineBasic? rest) else none
termination_by t.length
decreasing_by
  · exact Nat.lt_succ_of_lt (length_lt_of_afterContinuation? _hcont)
  · exact Nat.lt_succ_of_lt (length_lt_of_readEscape? _hesc)
  · simp only [List.length_cons]; omega
  · simp

/-- The rest of a literal string on several lines. -/
def readMultilineLiteral? : Text → Option (Text × Text)
  | [] => none
  | '\'' :: '\'' :: '\'' :: rest => some (closeMultiline '\'' rest)
  | '\r' :: '\n' :: rest => consRead '\r' (consRead '\n' (readMultilineLiteral? rest))
  | c :: rest => if isPlain c || c == '\n' then consRead c (readMultilineLiteral? rest) else none

/-! ### Any form -/

/-- A string on one line, read from its opening mark. -/
def readLine? : Text → Option (Text × Text)
  | '"' :: t => readBasic? t
  | '\'' :: t => readLiteral? t
  | _ => none

/-- A string in any form, read from its opening marks. -/
def readString? : Text → Option (Text × Text)
  | '"' :: '"' :: '"' :: t => readMultilineBasic? (dropNewline t)
  | '\'' :: '\'' :: '\'' :: t => readMultilineLiteral? (dropNewline t)
  | t => readLine? t

end BoolQuery.Toml
