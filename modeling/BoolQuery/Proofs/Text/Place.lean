import BoolQuery.Text.Basic
import Mathlib.Tactic.Common

/-!
# Places in a Text

A byte offset is the place of a character exactly if it is the size of the text before that
character. At such a place the two ways from bytes to characters give what they should: the
character that stands there, and the number of characters before it.

## Main results

* `Text.charAt?_byteSize`: the character at a place.
* `Text.charAt?_append_of_lt`, `Text.charAt?_append_add`: places in two texts one after the other.
* `Text.column?_byteSize`: the number of characters before a place.
* `Text.cut?_eq_some_iff`: the two parts of a text.
-/

namespace BoolQuery

namespace Text

/-- The size does not depend on the order. -/
@[simp] theorem byteSize_reverse (t : Text) : byteSize t.reverse = byteSize t := by
  induction t with
  | nil => rfl
  | cons c t ih => simp [ih, Nat.add_comm]

/-- A place behind a character is not inside it. -/
theorem exists_byteSize_cons (c : Char) (t : Text) (k : Nat) :
    ∃ n, byteSize (c :: t) + k = n + 1 ∧ ¬ n + 1 < c.utf8Size ∧
      n + 1 - c.utf8Size = byteSize t + k := by
  have := c.utf8Size_pos
  rw [byteSize_cons]
  exact ⟨c.utf8Size + byteSize t + k - 1, by omega, by omega, by omega⟩

/-- At a place in the rear part of a text stands what stands there in this part. -/
theorem charAt?_append_add (before after : Text) (k : Nat) :
    charAt? (before ++ after) (byteSize before + k) = charAt? after k := by
  induction before with
  | nil => rw [byteSize_nil, Nat.zero_add, List.nil_append]
  | cons c before ih =>
      obtain ⟨n, hsize, hlt, hrest⟩ := exists_byteSize_cons c before k
      rw [List.cons_append, hsize, charAt?, if_neg hlt, hrest, ih]

/-- At a place in the front part of a text stands what stands there in this part. -/
theorem charAt?_append_of_lt {before : Text} {k : Nat} (h : k < byteSize before) (after : Text) :
    charAt? (before ++ after) k = charAt? before k := by
  induction before generalizing k with
  | nil => simp at h
  | cons c before ih =>
      cases k with
      | zero => rfl
      | succ k =>
          rw [byteSize_cons] at h
          rw [List.cons_append, charAt?, charAt?]
          split
          · rfl
          · exact ih (by omega)

/-- **The character at a place** is the one behind the text before it. -/
theorem charAt?_byteSize (before : Text) (c : Char) (after : Text) :
    charAt? (before ++ c :: after) (byteSize before) = some c :=
  charAt?_append_add before (c :: after) 0

/-- Columns are counted on from what has been seen. -/
theorem columnFrom?_byteSize (seen : Nat) (before after : Text) :
    columnFrom? seen (before ++ after) (byteSize before) = some (seen + before.length) := by
  induction before generalizing seen with
  | nil => rw [byteSize_nil, columnFrom?, List.length_nil, Nat.add_zero]
  | cons k before ih =>
      obtain ⟨n, hsize, hlt, hrest⟩ := exists_byteSize_cons k before 0
      simp only [Nat.add_zero] at hsize hrest
      rw [List.cons_append, hsize, columnFrom?, if_neg hlt, hrest, ih, List.length_cons]
      simp only [Nat.add_assoc, Nat.add_comm 1]

/-- **The number of characters before a place** is the length of the text before it. -/
theorem column?_byteSize (before after : Text) :
    column? (before ++ after) (byteSize before) = some before.length := by
  rw [column?, columnFrom?_byteSize, Nat.zero_add]

/-! ### Cuts -/

section Cuts

variable {t front rest : Text} {n m : Nat}

/-- A text cut in two at a byte offset: none inside a character and past the end. -/
def cut? : Text → (offset : Nat) → Option (Text × Text)
  | t, 0 => some ([], t)
  | [], _ + 1 => none
  | c :: t, n + 1 =>
    if n + 1 < c.utf8Size then none
    else (cut? t (n + 1 - c.utf8Size)).map fun parts => (c :: parts.1, parts.2)

/-- **A text is cut behind the front that has the size asked for.** -/
theorem cut?_eq_some_iff :
    cut? t n = some (front, rest) ↔ t = front ++ rest ∧ byteSize front = n := by
  constructor
  · intro h
    induction t generalizing n front with
    | nil =>
        cases n with
        | zero =>
            obtain ⟨rfl, rfl⟩ := Prod.mk.inj (Option.some.inj h)
            exact ⟨rfl, rfl⟩
        | succ n => cases h
    | cons c t ih =>
        cases n with
        | zero =>
            obtain ⟨rfl, rfl⟩ := Prod.mk.inj (Option.some.inj h)
            exact ⟨rfl, rfl⟩
        | succ n =>
            rw [cut?] at h
            split at h
            · cases h
            · next hsize =>
              obtain ⟨⟨front', rest'⟩, hcut, heq⟩ := Option.map_eq_some_iff.mp h
              obtain ⟨rfl, rfl⟩ := Prod.mk.inj heq
              obtain ⟨rfl, hfront⟩ := ih hcut
              refine ⟨rfl, ?_⟩
              rw [byteSize_cons, hfront]
              omega
  · rintro ⟨rfl, rfl⟩
    induction front with
    | nil => cases rest <;> rfl
    | cons c front ih =>
        obtain ⟨n, hsize, hlt, hrest⟩ := exists_byteSize_cons c front 0
        simp only [Nat.add_zero] at hsize hrest
        rw [List.cons_append, hsize, cut?, if_neg hlt, hrest, ih]
        rfl

/-- The byte offset `n` is not past the end of the text and not inside a character. -/
def IsPlace (t : Text) (n : Nat) : Prop :=
  ∃ front, front <+: t ∧ byteSize front = n

/-- A text ends in a place. -/
theorem isPlace_byteSize (t : Text) : IsPlace t (byteSize t) :=
  ⟨t, List.prefix_refl t, rfl⟩

namespace IsPlace

/-- A place is not past the end. -/
theorem le (h : IsPlace t n) : n ≤ byteSize t := by
  obtain ⟨front, ⟨rest, rfl⟩, rfl⟩ := h
  rw [byteSize_append]
  exact Nat.le_add_right _ _

/-- A place stays one when the text goes on. -/
theorem append (h : IsPlace t n) (more : Text) : IsPlace (t ++ more) n := by
  obtain ⟨front, hfront, rfl⟩ := h
  exact ⟨front, hfront.trans (List.prefix_append t more), rfl⟩

/-- The later of two places. -/
theorem max (hn : IsPlace t n) (hm : IsPlace t m) : IsPlace t (Max.max n m) := by
  rcases Nat.le_total n m with hle | hle
  · rwa [Nat.max_eq_right hle]
  · rwa [Nat.max_eq_left hle]

end IsPlace

end Cuts

end Text

end BoolQuery
