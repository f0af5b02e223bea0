import BoolQuery.Proofs.Dialect.Sound
import BoolQuery.Proofs.Text.Trim
import Mathlib.Logic.Equiv.Defs

/-!
# Renaming Characters

A dialect gives meanings to characters, and a renaming of characters carries these meanings over:
the renamed dialect means by a renamed character what the dialect means by the character. The
only meaning that no dialect gives is that of white space, so renamings leave white space what it
is. Every test that the reading of queries makes of a character has then the same outcome for
the renamed character in the renamed dialect, and the renamed dialect is sound if the dialect is.

## Main definitions

* `Renaming`: bijections of characters that leave white space what it is.
* `Dialect.rename`: the renamed dialect.

## Main results

* `Renaming.takeWhile_map`, `Renaming.trim_map`: parts of a renamed text.
* `Dialect.isGrouping_rename`, `Dialect.endsWord_rename`, `Dialect.bracket?_rename`: the tests.
* `Dialect.Sound.rename`: the renamed dialect is sound.
-/

namespace BoolQuery

/-- A renaming of characters. White space and nothing else becomes white space. -/
structure Renaming where
  /-- The bijection. -/
  perm : Equiv.Perm Char
  /-- White space stays white space. -/
  isBlank_perm : ∀ c, Text.isBlank (perm c) = Text.isBlank c

instance : CoeFun Renaming fun _ => Char → Char := ⟨fun r => r.perm⟩

namespace Renaming

variable (r : Renaming) {c e : Char} {t : Text} {p p' : Char → Bool}

/-- Different characters get different names. -/
theorem injective : Function.Injective r :=
  r.perm.injective

@[simp] theorem isBlank_apply (c : Char) : Text.isBlank (r c) = Text.isBlank c :=
  r.isBlank_perm c

/-- Characters are equal if their new names are. -/
theorem apply_eq_iff : r c = r e ↔ c = e :=
  r.injective.eq_iff

/-- A character is in a text if its new name is in the renamed text. -/
theorem apply_mem_map_iff : r c ∈ t.map r ↔ c ∈ t :=
  List.mem_map_of_injective r.injective

/-- Different texts get different names. -/
theorem map_injective : Function.Injective (List.map r) :=
  List.map_injective_iff.mpr r.injective

/-! ### Parts of a renamed text -/

/-- The front of a renamed text up to the first character that does not pass a test. -/
theorem takeWhile_map (h : ∀ c, p' (r c) = p c) (t : Text) :
    (t.map r).takeWhile p' = (t.takeWhile p).map r := by
  rw [List.takeWhile_map]
  exact congrArg (fun f => (t.takeWhile f).map r) (funext h)

/-- The rest of a renamed text from the first character that does not pass a test. -/
theorem dropWhile_map (h : ∀ c, p' (r c) = p c) (t : Text) :
    (t.map r).dropWhile p' = (t.dropWhile p).map r := by
  rw [List.dropWhile_map]
  exact congrArg (fun f => (t.dropWhile f).map r) (funext h)

/-- A renamed text is blank if the text is. -/
@[simp] theorem all_isBlank_map (t : Text) :
    (t.map r).all Text.isBlank = t.all Text.isBlank := by
  rw [List.all_map]
  exact congrArg t.all (funext r.isBlank_apply)

/-- Trimming a renamed text. -/
@[simp] theorem trim_map (t : Text) : Text.trim (t.map r) = t.trim.map r := by
  rw [Text.trim, Text.trim, Text.trimStart, Text.trimStart, Text.trimEnd, Text.trimEnd,
    r.dropWhile_map r.isBlank_apply, ← List.map_reverse, r.dropWhile_map r.isBlank_apply,
    List.map_reverse]

end Renaming

/-! ### Renamed dialects -/

/-- The pair with both characters renamed. -/
def BracketPair.rename (r : Renaming) (p : BracketPair) : BracketPair :=
  ⟨r p.opening, r p.closing⟩

/-- The keywords with all characters renamed. -/
def Keywords.rename (r : Renaming) (k : Keywords) : Keywords :=
  ⟨k.and.map r, k.or.map r, k.not.map r⟩

namespace Dialect

/-- The dialect with its special characters and all characters of its keywords renamed. -/
def rename (r : Renaming) (d : Dialect) : Dialect where
  fieldDelimiter := r d.fieldDelimiter
  quote := r d.quote
  group := d.group.rename r
  fieldOperator := d.fieldOperator.rename r
  modifier := d.modifier.rename r
  keywords := d.keywords.rename r

variable (r : Renaming) {d : Dialect} {c : Char} {t : Text}

@[simp] theorem keyword_rename (op : Operator) :
    (d.rename r).keyword op = (d.keyword op).map r := by
  cases op <;> rfl

@[simp] theorem pair_rename (kind : BracketKind) :
    (d.rename r).pair kind = (d.pair kind).rename r := by
  cases kind <;> rfl

/-- The special characters are the renamed ones. -/
theorem specials_rename : (d.rename r).specials = d.specials.map r :=
  rfl

/-! ### Tests of characters -/

@[simp] theorem isGrouping_rename : (d.rename r).isGrouping (r c) = d.isGrouping c := by
  simp [isGrouping, rename, BracketPair.rename]

@[simp] theorem isFieldBracket_rename :
    (d.rename r).isFieldBracket (r c) = d.isFieldBracket c := by
  simp [isFieldBracket, rename, BracketPair.rename]

@[simp] theorem endsWord_rename : (d.rename r).endsWord (r c) = d.endsWord c := by
  rw [endsWord, endsWord, r.isBlank_apply, isGrouping_rename]
  simp [rename]

/-- A character is the same side of a pair after renaming. -/
theorem side?_rename (p : BracketPair) : (p.rename r).side? (r c) = p.side? c := by
  simp [BracketPair.side?, BracketPair.rename]

@[simp] theorem bracket?_rename : (d.rename r).bracket? (r c) = d.bracket? c := by
  simp [bracket?, side?_rename]

/-! ### Soundness -/

/-- **The renamed dialect is sound.** -/
theorem Sound.rename (hd : d.Sound) : (d.rename r).Sound where
  nodup := by
    rw [specials_rename]
    exact hd.nodup.map r.injective
  isBlank_special := by
    rw [specials_rename]
    exact List.forall_mem_map.mpr fun c hc => by rw [r.isBlank_apply, hd.isBlank_special c hc]
  keyword_ne_nil op := by
    rw [keyword_rename]
    exact mt List.map_eq_nil_iff.mp (hd.keyword_ne_nil op)
  isBlank_keyword op := by
    rw [keyword_rename]
    exact List.forall_mem_map.mpr fun c hc => by rw [r.isBlank_apply, hd.isBlank_keyword op c hc]
  notMem_specials op := by
    rw [keyword_rename, specials_rename]
    exact List.forall_mem_map.mpr fun c hc =>
      mt r.apply_mem_map_iff.mp (hd.notMem_specials op c hc)
  keyword_injective op op' h := by
    rw [keyword_rename, keyword_rename] at h
    exact hd.keyword_injective (r.map_injective h)

end Dialect

end BoolQuery
