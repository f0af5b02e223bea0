import BoolQuery.Proofs.Query.Match
import Mathlib.Algebra.Ring.Parity

/-!
# Polarity

A leaf speaks for a match or against it, according to the number of negations above it. If all
leaves of a tree stand under even numbers of negations, the tree cannot lose a match when more
terms occur; if all stand under odd numbers, it cannot gain one. A longer candidate is one in which
more terms occur, so matching goes with the candidate or against it.

The empty candidate is the exception: it matches nothing, although fewer terms occur in it than
anywhere else. This can break only the second statement, which is about candidates that are not
empty.

## Main definitions

* `Node.negations`: the number of negations above each leaf.

## Main results

* `Node.eval_mono`: values, when more terms are true.
* `Node.accepts_mono`: matches, when the candidate gets longer.
-/

namespace BoolQuery

/-- What occurs in a part of the candidate occurs in the candidate. -/
theorem Term.occursIn_of_infix {t : Term} {c d : Text} (h : c <:+: d)
    (hc : t.occursIn c = true) : t.occursIn d = true :=
  Text.contains_eq_true_iff.mpr ((Text.contains_eq_true_iff.mp hc).trans h)

namespace Node

/-- For each leaf, from left to right, the number of negations above it. -/
def negations : Node → List Nat
  | term _ => [0]
  | not child => child.negations.map (· + 1)
  | and left right => left.negations ++ right.negations
  | or left right => left.negations ++ right.negations

/-- **When more terms are true**, a tree with all leaves under even numbers of negations stays
true, and one with all leaves under odd numbers stays false. Induction on the tree, with both
statements at once, because a negation turns each into the other. -/
theorem eval_mono {v w : Term → Bool} (h : ∀ t, v t = true → w t = true) (n : Node) :
    ((∀ k ∈ n.negations, Even k) → n.eval v = true → n.eval w = true) ∧
    ((∀ k ∈ n.negations, Odd k) → n.eval w = true → n.eval v = true) := by
  induction n with
  | term t => exact ⟨fun _ => h t, fun hodd => by simp [negations] at hodd⟩
  | not child ih =>
      simp only [negations, List.forall_mem_map, Nat.even_add_one, Nat.odd_add_one,
        Nat.not_even_iff_odd, Nat.not_odd_iff_even, eval_not, Bool.not_eq_true']
      refine ⟨fun hodd hv => ?_, fun heven hw => ?_⟩
      · rw [← Bool.not_eq_true] at hv ⊢
        exact mt (ih.2 hodd) hv
      · rw [← Bool.not_eq_true] at hw ⊢
        exact mt (ih.1 heven) hw
  | and left right ihl ihr =>
      simp only [negations, List.forall_mem_append, eval_and, Bool.and_eq_true]
      exact ⟨fun heven => And.imp (ihl.1 heven.1) (ihr.1 heven.2),
        fun hodd => And.imp (ihl.2 hodd.1) (ihr.2 hodd.2)⟩
  | or left right ihl ihr =>
      simp only [negations, List.forall_mem_append, eval_or, Bool.or_eq_true]
      exact ⟨fun heven => Or.imp (ihl.1 heven.1) (ihr.1 heven.2),
        fun hodd => Or.imp (ihl.2 hodd.1) (ihr.2 hodd.2)⟩

/-- **When the candidate gets longer**, a tree with all leaves under even numbers of negations
keeps its match, and one with all leaves under odd numbers gets none that it did not have, unless
the candidate was empty. -/
theorem accepts_mono {c d : Text} (h : c <:+: d) (n : Node) :
    ((∀ k ∈ n.negations, Even k) → n.accepts c = true → n.accepts d = true) ∧
    ((∀ k ∈ n.negations, Odd k) → c ≠ [] → n.accepts d = true → n.accepts c = true) := by
  have hmore := eval_mono (fun t => Term.occursIn_of_infix (t := t) h) n
  simp only [accepts_eq_true_iff]
  refine ⟨fun heven hc => ⟨?_, hmore.1 heven hc.2⟩, fun hodd hne hd => ⟨hne, hmore.2 hodd hd.2⟩⟩
  rintro rfl
  exact hc.1 (List.infix_nil.mp h)

/-- `a AND NOT (NOT b)` matches `ab`, so it matches `cabd`. `NOT (a OR b)` matches `xyz`, so it
matches `y`; but it does not match the empty candidate. -/
theorem accepts_mono_nested :
    "ab".toList <:+: "cabd".toList ∧
    (and (term { value := ['a'] }) (not (not (term { value := ['b'] })))).accepts
      "cabd".toList = true ∧
    (not (or (term { value := ['a'] }) (term { value := ['b'] }))).accepts "y".toList = true ∧
    (not (or (term { value := ['a'] }) (term { value := ['b'] }))).accepts [] = false := by
  have hpart : "ab".toList <:+: "cabd".toList := ⟨['c'], ['d'], rfl⟩
  have hpart' : "y".toList <:+: "xyz".toList := ⟨['x'], ['z'], rfl⟩
  refine ⟨hpart, ?_, ?_, rfl⟩
  · exact (accepts_mono hpart _).1 (by decide) (by decide)
  · exact (accepts_mono hpart' _).2 (by decide) (by decide) (by decide)

end Node

end BoolQuery
