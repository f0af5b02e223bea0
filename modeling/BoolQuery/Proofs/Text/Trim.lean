import BoolQuery.Text.Basic
import Mathlib.Data.List.TakeWhile
import Mathlib.Tactic.Common

/-!
# Trimming

Texts without the white space around them, and what trimming makes of a text that is built up
from the left, as a scanner does.

## Main definitions

* `Text.trim`: the text without the white space on both sides.

## Main results

* `Text.trimStart_append`: trimming a text that goes on.
* `Text.trim_eq_nil_iff`: only white space is trimmed away.
* `Text.trim_append_blank`, `Text.trim_blank_append`: white space around a text does not
  matter.
-/

namespace BoolQuery

namespace Text

/-- The text without the white space on both sides. -/
def trim (t : Text) : Text :=
  trimEnd (trimStart t)

variable {t u w : Text}

/-! ### Blank texts -/

theorem trimStart_eq_nil_iff : trimStart t = [] ↔ t.all isBlank = true := by
  simp [trimStart, List.dropWhile_eq_nil_iff]

theorem trimEnd_eq_nil_iff : trimEnd t = [] ↔ t.all isBlank = true := by
  simp [trimEnd, List.dropWhile_eq_nil_iff]

/-- What is left in front begins with a character that is not white space. -/
theorem isBlank_of_trimStart_eq_cons {c : Char} (h : trimStart t = c :: u) :
    isBlank c = false := by
  have := List.head?_dropWhile_not isBlank t
  rw [trimStart] at h
  simpa [h] using this

/-- The text without the white space it ends in is a front of it. -/
theorem trimEnd_prefix (t : Text) : trimEnd t <+: t := by
  have hsuffix := List.dropWhile_suffix isBlank (l := t.reverse)
  rwa [← List.reverse_prefix, List.reverse_reverse] at hsuffix

/-- A text that begins with something else than white space stays. -/
theorem trimStart_cons_of_not_isBlank {c : Char} (h : isBlank c = false) :
    trimStart (c :: t) = c :: t := by
  simp [trimStart, h]

/-- **Trimming the front of a text that goes on**: once something else than white space has
come, everything stays. -/
theorem trimStart_append : trimStart (t ++ u)
    = if t.all isBlank then trimStart u else trimStart t ++ u := by
  rw [trimStart, List.dropWhile_append]
  simp only [List.isEmpty_iff, List.dropWhile_eq_nil_iff, List.all_eq_true]
  rfl

/-- A character that is not white space, or that does not come first, stays with all that
follows. -/
theorem trimStart_append_cons {c : Char} (h : t.all isBlank = false ∨ isBlank c = false) :
    trimStart (t ++ c :: u) = trimStart t ++ c :: u := by
  rw [trimStart_append]
  split
  · next ht =>
    have hc : isBlank c = false := by simpa [ht] using h
    rw [trimStart_cons_of_not_isBlank hc, trimStart_eq_nil_iff.mpr ht]
    rfl
  · rfl

/-- Trimming the end of a text, by what it ends in. -/
theorem trimEnd_append : trimEnd (t ++ u)
    = if u.all isBlank then trimEnd t else t ++ trimEnd u := by
  rw [trimEnd, List.reverse_append, List.dropWhile_append]
  simp only [List.isEmpty_iff, List.dropWhile_eq_nil_iff, List.all_eq_true, List.mem_reverse]
  split <;> simp [trimEnd]

/-- **Only white space is trimmed away altogether.** -/
theorem trim_eq_nil_iff : trim t = [] ↔ t.all isBlank = true := by
  rw [trim, trimEnd_eq_nil_iff]
  cases hs : trimStart t with
  | nil => exact iff_of_true rfl (trimStart_eq_nil_iff.mp hs)
  | cons c u =>
      refine iff_of_false ?_ fun h => ?_
      · simp [isBlank_of_trimStart_eq_cons hs]
      · rw [trimStart_eq_nil_iff.mpr h] at hs
        cases hs

/-- What is left of a text was in it. -/
theorem mem_of_mem_trim {c : Char} (h : c ∈ trim t) : c ∈ t := by
  have hstart : c ∈ trimStart t := by
    rw [trim, trimEnd, List.mem_reverse] at h
    exact List.mem_reverse.mp ((List.dropWhile_suffix _).subset h)
  exact (List.dropWhile_suffix _).subset hstart

/-! ### White space around a text -/

/-- White space in front does not matter. -/
theorem trim_blank_append (h : w.all isBlank = true) : trim (w ++ t) = trim t := by
  rw [trim, trimStart_append, if_pos h]
  rfl

/-- White space at the end does not matter. -/
theorem trim_append_blank (h : w.all isBlank = true) : trim (t ++ w) = trim t := by
  rw [trim, trimStart_append]
  split
  · next ht =>
    rw [trimStart_eq_nil_iff.mpr h, trim_eq_nil_iff.mpr ht]
    rfl
  · rw [trimEnd_append, if_pos h]
    rfl

/-- A text that neither begins nor ends in white space is its own trimmed form. -/
theorem trim_eq_self {c e : Char} (hc : isBlank c = false) (hhead : t.head? = some c)
    (he : isBlank e = false) (hlast : t.getLast? = some e) : trim t = t := by
  obtain ⟨u, rfl⟩ := List.head?_eq_some_iff.mp hhead
  obtain ⟨v, hv⟩ := List.getLast?_eq_some_iff.mp hlast
  rw [trim, trimStart_cons_of_not_isBlank hc, hv, trimEnd_append]
  simp [he, trimEnd]

/-- A text is its trimmed form with white space around it. -/
theorem exists_eq_append_trim (t : Text) :
    ∃ lead trail, lead.all isBlank = true ∧ trail.all isBlank = true ∧
      t = lead ++ (trim t ++ trail) := by
  have htrail : ∀ c ∈ ((trimStart t).reverse.takeWhile isBlank).reverse, isBlank c = true :=
    fun c hc => List.mem_takeWhile_imp (List.mem_reverse.mp hc)
  refine ⟨t.takeWhile isBlank, ((trimStart t).reverse.takeWhile isBlank).reverse, ?_, ?_, ?_⟩
  · exact List.all_eq_true.mpr fun c hc => List.mem_takeWhile_imp hc
  · exact List.all_eq_true.mpr htrail
  · have hend : trim t ++ ((trimStart t).reverse.takeWhile isBlank).reverse = trimStart t := by
      rw [trim, trimEnd, ← List.reverse_append, List.takeWhile_append_dropWhile,
        List.reverse_reverse]
    rw [hend, trimStart, List.takeWhile_append_dropWhile]

/-- Trimming once is enough. -/
theorem trim_trim (t : Text) : trim (trim t) = trim t := by
  obtain ⟨lead, trail, hlead, htrail, heq⟩ := exists_eq_append_trim t
  conv_rhs => rw [heq, trim_blank_append hlead, trim_append_blank htrail]

end Text

end BoolQuery
