import BoolQuery.Proofs.Fold
import Mathlib.Data.List.Forall2

/-!
# Two Runs Side by Side

Two computations that can fail are **alike** when both succeed with related results, or both
fail with related errors. Computations that are built the same way from alike parts are alike,
so it is enough to compare two runs step by step: no property of a whole run has to be found
first. A run compared with itself shows what is true of all its results and all its errors.

## Main definitions

* `Alike E S`: the relation, for errors related by `E` and results related by `S`.

## Main results

* `Alike.bind`, `Alike.foldlM`: one computation after the other, and a row of steps.
-/

namespace BoolQuery

variable {α β σ τ γ δ ε : Type} {E : ε → ε → Prop} {S : σ → τ → Prop}

/-- Both outcomes are results related by `S`, or both are errors related by `E`. -/
inductive Alike (E : ε → ε → Prop) (S : σ → τ → Prop) : Except ε σ → Except ε τ → Prop
  | ok {s : σ} {t : τ} : S s t → Alike E S (.ok s) (.ok t)
  | error {e f : ε} : E e f → Alike E S (.error e) (.error f)

namespace Alike

variable {x : Except ε σ} {y : Except ε τ}

/-- Alike outcomes are alike also for relations that ask for less. -/
theorem mono {E' : ε → ε → Prop} {S' : σ → τ → Prop} (h : Alike E S x y)
    (hE : ∀ e f, E e f → E' e f) (hS : ∀ s t, S s t → S' s t) : Alike E' S' x y := by
  cases h with
  | ok hs => exact .ok (hS _ _ hs)
  | error he => exact .error (hE _ _ he)

/-- What is alike to a success is a success. -/
theorem exists_ok {s : σ} (h : Alike E S x y) (hx : x = .ok s) : ∃ t, y = .ok t ∧ S s t := by
  subst hx
  cases h with
  | ok hs => exact ⟨_, rfl, hs⟩

/-- What is alike to a failure is a failure. -/
theorem exists_error {e : ε} (h : Alike E S x y) (hx : x = .error e) :
    ∃ f, y = .error f ∧ E e f := by
  subst hx
  cases h with
  | error he => exact ⟨_, rfl, he⟩

/-- Alike outcomes are the outcomes that there are. -/
theorem with_eq (h : Alike E S x y) :
    Alike E (fun s t => S s t ∧ x = .ok s ∧ y = .ok t) x y := by
  cases h with
  | ok hs => exact .ok ⟨hs, rfl, rfl⟩
  | error he => exact .error he

/-- Alike computations go on alike. -/
theorem bind {T : γ → δ → Prop} {f : σ → Except ε γ} {g : τ → Except ε δ}
    (h : Alike E S x y) (hfg : ∀ s t, S s t → Alike E T (f s) (g t)) :
    Alike E T (x >>= f) (y >>= g) := by
  cases h with
  | ok hs => exact hfg _ _ hs
  | error he => exact .error he

/-- Functions that keep the relation can be applied to the results. -/
theorem map {T : γ → δ → Prop} {f : σ → γ} {g : τ → δ} (h : Alike E S x y)
    (hfg : ∀ s t, S s t → T (f s) (g t)) : Alike E T (x.map f) (y.map g) := by
  cases h with
  | ok hs => exact .ok (hfg _ _ hs)
  | error he => exact .error he

/-- **Alike steps over related rows are alike** from the first to the last. -/
theorem foldlM {R : α → β → Prop} {f : σ → α → Except ε σ} {g : τ → β → Except ε τ} {xs : List α}
    {ys : List β} (hxs : List.Forall₂ R xs ys) {s : σ} {t : τ} (h : S s t)
    (hfg : ∀ {s t a b}, S s t → R a b → Alike E S (f s a) (g t b)) :
    Alike E S (xs.foldlM f s) (ys.foldlM g t) := by
  induction hxs generalizing s t with
  | nil => exact .ok h
  | cons hab _ ih =>
      rw [List.foldlM_cons, List.foldlM_cons]
      exact (hfg h hab).bind fun _ _ => ih

end Alike

end BoolQuery
