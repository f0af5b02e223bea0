/-!
# Character Classes Given by Ranges

A class of characters is stored as the list of its code point ranges, both ends included, in
ascending order.

## Main definitions

* `Text.inRanges`: membership of a character in such a list.

## Main results

* `Text.inRanges_eq_true_iff`: for ascending ranges the test decides membership in one of them.
-/

namespace BoolQuery.Text

/-- True when the code point of `c` lies in one of the ranges. The ranges ascend, so the
search ends at the first one that begins after `c`. -/
def inRanges : List (Nat × Nat) → Char → Bool
  | [], _ => false
  | (low, high) :: rest, c =>
    if c.toNat < low then false else if c.toNat ≤ high then true else inRanges rest c

/-- For ascending ranges the test decides membership in one of them. -/
theorem inRanges_eq_true_iff {ranges : List (Nat × Nat)} {c : Char}
    (h : ranges.Pairwise fun r s => r.1 ≤ s.1) :
    inRanges ranges c = true ↔ ∃ r ∈ ranges, r.1 ≤ c.toNat ∧ c.toNat ≤ r.2 := by
  induction ranges with
  | nil => simp [inRanges]
  | cons r rest ih =>
    obtain ⟨hr, hrest⟩ := List.pairwise_cons.1 h
    simp only [inRanges, List.mem_cons, exists_eq_or_imp]
    split
    · next hlow =>
      simp only [Bool.false_eq_true, false_iff, not_or, not_exists, not_and]
      exact ⟨by omega, fun s hs _ => absurd (hr s hs) (by omega)⟩
    · split
      · next hlow hhigh => simp only [true_iff]; exact Or.inl ⟨by omega, hhigh⟩
      · next hlow hhigh =>
        rw [ih hrest]
        exact ⟨Or.inr, fun h => h.resolve_left fun h => hhigh h.2⟩

end BoolQuery.Text
