import BoolQuery.Proofs.Query.Match

/-!
# The Order of Evaluation

A matcher may have effects, and what it answers may depend on what it was asked before. So it
matters which leaves it is asked about, how often and in which order, and not only what comes out.
It is asked about every leaf once, from left to right, whatever it answers: no answer saves a
question. The result is the value that the tree has under the answers.

The empty candidate is answered without a question. Every part of the tree refuses it again, but
the root has done so before a negation could make something of that.

## Main definitions

* `Node.value`: the value of a tree under the answers at its leaves.
* `Node.Holds`, `Node.Equivalent`: trees as formulas over their terms.
* `Node.recorded`: a matcher that also writes down what it is asked.

## Main results

* `Node.acceptsM_eq`: matching, as a row of questions and the value under the answers.
* `Node.acceptsM_asks`: what the matcher is asked, and what comes out.
-/

namespace BoolQuery

/-! ### Rows of effects -/

section Rows

variable {m : Type → Type} [Monad m] [LawfulMonad m] {α β γ : Type}

/-- What comes after a row of effects sees only results of as many as there were effects. -/
theorem mapM_bind_congr {f : α → m β} {g g' : List β → m γ} (xs : List α)
    (h : ∀ ys, ys.length = xs.length → g ys = g' ys) : xs.mapM f >>= g = xs.mapM f >>= g' := by
  induction xs generalizing g g' with
  | nil => simpa using h [] rfl
  | cons x xs ih =>
      simp only [List.mapM_cons, bind_assoc, pure_bind]
      refine bind_congr fun y => ih fun ys hys => h (y :: ys) ?_
      rw [List.length_cons, List.length_cons, hys]

end Rows

namespace Node

/-! ### Values -/

/-- The value of a tree when its leaves, from left to right, have the given answers. -/
def value : Node → (answers : List Bool) → Bool
  | term _, answers => answers.headD false
  | not child, answers => !child.value answers
  | and left right, answers =>
    left.value (answers.take left.terms.length) && right.value (answers.drop left.terms.length)
  | or left right, answers =>
    left.value (answers.take left.terms.length) || right.value (answers.drop left.terms.length)

/-- The tree holds as a formula over its terms, of which those with `v` hold. -/
def Holds (v : Term → Prop) : Node → Prop
  | term t => v t
  | not child => ¬ child.Holds v
  | and left right => left.Holds v ∧ right.Holds v
  | or left right => left.Holds v ∨ right.Holds v

/-- The trees are equivalent as formulas over their terms. -/
def Equivalent (n n' : Node) : Prop :=
  ∀ v, n.Holds v ↔ n'.Holds v

variable {left right : Node} {as bs : List Bool}

theorem value_and (h : as.length = left.terms.length) :
    (and left right).value (as ++ bs) = (left.value as && right.value bs) := by
  rw [value, ← h, List.take_left, List.drop_left]

theorem value_or (h : as.length = left.terms.length) :
    (or left right).value (as ++ bs) = (left.value as || right.value bs) := by
  rw [value, ← h, List.take_left, List.drop_left]

/-- The value of a tree is true when it holds as a formula. -/
theorem eval_eq_true_iff (leaf : Term → Bool) (n : Node) :
    n.eval leaf = true ↔ n.Holds fun t => leaf t = true := by
  induction n with
  | term t => rfl
  | not child ih => simp [Holds, ← ih]
  | and left right ihl ihr => simp [Holds, ihl, ihr]
  | or left right ihl ihr => simp [Holds, ihl, ihr]

/-- Equivalent trees have the same value, whatever the values of the terms are. -/
theorem Equivalent.eval_eq {n n' : Node} (h : n.Equivalent n') (leaf : Term → Bool) :
    n.eval leaf = n'.eval leaf := by
  rw [Bool.eq_iff_iff, eval_eq_true_iff, eval_eq_true_iff]
  exact h _

/-! ### Questions and answers -/

section Matching

variable {m : Type → Type} [Monad m] {candidate : Text}

/-- The empty candidate is answered without a question. -/
theorem acceptsM_nil (matcher : Term → Text → m Bool) (n : Node) :
    n.acceptsM matcher [] = pure false := by
  cases n <;> rfl

/-- **Matching is a row of questions**, one for each leaf from left to right, and the value under
the answers to them. Induction on the tree: the answers for both sides of an operator come one
after the other, and neither side finds the candidate empty. -/
theorem acceptsM_eq [LawfulMonad m] (matcher : Term → Text → m Bool) (h : candidate ≠ [])
    (n : Node) : n.acceptsM matcher candidate = n.value <$> n.terms.mapM (matcher · candidate) := by
  have hsome : ¬ candidate.isEmpty = true := by simpa using h
  induction n with
  | term t => simp [acceptsM, hsome, terms, value]
  | not child ih => simp [acceptsM, hsome, terms, value, ih]
  | and left right ihl ihr =>
      rw [acceptsM, if_neg hsome, ihl, ihr]
      simp only [terms, map_eq_pure_bind, List.mapM_append, bind_assoc, pure_bind]
      refine mapM_bind_congr _ fun as has => bind_congr fun bs => ?_
      rw [value_and has]
  | or left right ihl ihr =>
      rw [acceptsM, if_neg hsome, ihl, ihr]
      simp only [terms, map_eq_pure_bind, List.mapM_append, bind_assoc, pure_bind]
      refine mapM_bind_congr _ fun as has => bind_congr fun bs => ?_
      rw [value_or has]

/-- The matcher, which also writes down what it is asked. -/
def recorded (matcher : Term → Text → m Bool) (t : Term) (candidate : Text) :
    StateT (List (Term × Text)) m Bool := do
  modify (· ++ [(t, candidate)])
  matcher t candidate

/-- What is written down in a row of questions is the row. -/
theorem run_mapM_recorded [LawfulMonad m] (matcher : Term → Text → m Bool) (candidate : Text)
    (ts : List Term) (calls : List (Term × Text)) :
    (ts.mapM (recorded matcher · candidate)).run calls =
      (fun answers => (answers, calls ++ ts.map (·, candidate))) <$>
        ts.mapM (matcher · candidate) := by
  induction ts generalizing calls with
  | nil => simp
  | cons t ts ih =>
      have hcall : (recorded matcher t candidate).run calls =
          (·, calls ++ [(t, candidate)]) <$> matcher t candidate := by
        simp [recorded]
      simp [List.mapM_cons, hcall, ih]

/-- **What a matcher is asked, and what comes out.** A candidate that is not empty is put before
the matcher, unchanged, once with every term at the leaves, from left to right, whatever the
matcher does and answers; and what comes out is the value of the tree under the answers. The empty
candidate does not match, and the matcher is not asked. A query passes everything on to its tree.

With a plain matcher, a candidate matches exactly if it is not empty and the tree holds as a formula
whose terms hold when the matcher says so. So trees that are equivalent as formulas over their
terms match the same candidates. -/
theorem acceptsM_asks (n : Node) :
    (∀ {m : Type → Type} [Monad m] [LawfulMonad m] (matcher : Term → Text → m Bool)
        (candidate : Text), candidate ≠ [] →
      n.acceptsM matcher candidate =
        n.value <$> (Query.mk n).terms.mapM (matcher · candidate) ∧
      ∀ calls, (n.acceptsM (recorded matcher) candidate).run calls =
        (fun answers => (n.value answers, calls ++ (Query.mk n).terms.map (·, candidate))) <$>
          (Query.mk n).terms.mapM (matcher · candidate)) ∧
    (∀ {m : Type → Type} [Monad m] (matcher : Term → Text → m Bool),
      n.acceptsM matcher [] = pure false ∧
      ∀ candidate, (Query.mk n).acceptsM matcher candidate = n.acceptsM matcher candidate) ∧
    (∀ (matcher : Term → Text → Bool) (candidate : Text),
      (n.acceptsWith matcher candidate = true ↔
        candidate ≠ [] ∧ n.Holds fun t => matcher t candidate = true) ∧
      (Query.mk n).acceptsWith matcher candidate = n.acceptsWith matcher candidate) ∧
    ∀ (n' : Node), n.Equivalent n' → ∀ (matcher : Term → Text → Bool) (candidate : Text),
      n.acceptsWith matcher candidate = n'.acceptsWith matcher candidate := by
  have hterms : (Query.mk n).terms = n.terms := by simp [Query.terms]
  rw [hterms]
  refine ⟨fun matcher candidate hne => ⟨acceptsM_eq matcher hne n, fun calls => ?_⟩,
    fun matcher => ⟨acceptsM_nil matcher n, fun candidate => rfl⟩,
    fun matcher candidate => ⟨?_, rfl⟩, fun n' h matcher candidate => ?_⟩
  · rw [acceptsM_eq _ hne, StateT.run_map, run_mapM_recorded, Functor.map_map]
  · simp [acceptsWith_eq, eval_eq_true_iff]
  · rw [acceptsWith_eq, acceptsWith_eq, h.eval_eq]

end Matching

/-- A matcher that agrees at every second question, whatever the question is. -/
def alternating (_ : Term) (_ : Text) : StateM Nat Bool :=
  modifyGet fun k => (k % 2 == 0, k + 1)

/-- In `(a AND NOT a) OR b` the term `a` is asked about twice, and `b` is asked about although the
left side is true by then. The trees `NOT (a AND b)` and `NOT a OR NOT b` are equivalent. The first
matches `x`, but not the empty text, with a matcher that agrees to the term `b` only. -/
theorem acceptsM_asks_alternating :
    ['x'] ≠ [] ∧
    ((or (and (term { value := ['a'] }) (not (term { value := ['a'] })))
        (term { value := ['b'] })).acceptsM alternating ['x']).run 0 = (true, 3) ∧
    (((or (and (term { value := ['a'] }) (not (term { value := ['a'] })))
        (term { value := ['b'] })).acceptsM (recorded alternating) ['x']).run []).run 0 =
      ((true, [({ value := ['a'] }, ['x']), ({ value := ['a'] }, ['x']),
        ({ value := ['b'] }, ['x'])]), 3) ∧
    (not (and (term { value := ['a'] }) (term { value := ['b'] }))).Equivalent
      (or (not (term { value := ['a'] })) (not (term { value := ['b'] }))) ∧
    (not (and (term { value := ['a'] }) (term { value := ['b'] }))).accepts "cab".toList =
      (or (not (term { value := ['a'] })) (not (term { value := ['b'] }))).accepts
        "cab".toList ∧
    ((not (and (term { value := ['a'] }) (term { value := ['b'] }))).acceptsWith
        (fun t _ => t.value == ['b']) ['x'] = true ∧
      (not (and (term { value := ['a'] }) (term { value := ['b'] }))).acceptsWith
        (fun t _ => t.value == ['b']) [] ≠ true) := by
  have hequiv : (not (and (term { value := ['a'] }) (term { value := ['b'] }))).Equivalent
      (or (not (term { value := ['a'] })) (not (term { value := ['b'] }))) :=
    fun v => by simp only [Holds, not_and_or]
  refine ⟨by decide, ?_, ?_, hequiv, (acceptsM_asks _).2.2.2 _ hequiv Term.occursIn _,
    ((acceptsM_asks _).2.2.1 _ _).1.mpr ⟨by decide, ?_⟩,
    fun h => (((acceptsM_asks _).2.2.1 _ _).1.mp h).1 rfl⟩
  · rw [((acceptsM_asks _).1 alternating ['x'] (by decide)).1]
    rfl
  · rw [((acceptsM_asks _).1 alternating ['x'] (by decide)).2]
    rfl
  · simp [Holds]

end Node

end BoolQuery
