import BoolQuery.Text.Basic
import Mathlib.Data.List.Basic
import Mathlib.Tactic.Common

/-!
# Legible Forms

A written form is **legible** when it can be taken off again from the front of any text: equal
texts that begin with written items begin with the same item, and go on alike. A legible form
tells different items apart, and it needs no mark behind it to show where it ends. Legible forms
are put together from legible forms: texts in which each character is written by an escape, up to
a mark that no escape begins with, and rows of labelled parts of which any may be missing.

## Main definitions

* `Legible`: the property.
* `Text.readEscape?`: reads an escape after a backslash, by its letter or its number.
* `writeParts`: labelled parts that may be missing.

## Main results

* `Legible.flatMap`, `Text.legible_escaped`: texts in escapes.
* `eq_of_append_cons`: texts up to a mark that they do not hold.
* `Text.hexValue_toDigits`: the number that hexadecimal digits stand for.
* `writeParts_inj`: labelled parts can be told apart, also by which of them are missing.
-/

namespace BoolQuery

/-- What is written for an item in front of a text can be taken off again. -/
def Legible {α : Type} (write : α → Text → Text) : Prop :=
  ∀ ⦃a b : α⦄ ⦃r s : Text⦄, write a r = write b s → a = b ∧ r = s

namespace Legible

variable {α : Type} {write : α → Text → Text} {escape : Char → Text} {mark : Char}

/-- What a reader gives back is legible. -/
theorem of_read {read : Text → Option (α × Text)} (h : ∀ a r, read (write a r) = some (a, r)) :
    Legible write := by
  intro a b r s heq
  have hread := h a r
  rw [heq, h b s] at hread
  obtain ⟨rfl, rfl⟩ := Prod.mk.inj (Option.some.inj hread)
  exact ⟨rfl, rfl⟩

/-- **A text in escapes is legible** up to a mark that no escape begins with. -/
theorem flatMap (h : Legible fun c r => escape c ++ r)
    (hmark : ∀ c r s, escape c ++ r ≠ mark :: s) :
    Legible fun (t : Text) r => t.flatMap escape ++ mark :: r := by
  intro t u r s heq
  induction t generalizing u with
  | nil =>
      cases u with
      | nil => exact ⟨rfl, (List.cons.inj heq).2⟩
      | cons c u =>
          simp only [List.flatMap_nil, List.nil_append, List.flatMap_cons, List.append_assoc] at heq
          exact absurd heq.symm (hmark c _ _)
  | cons c t ih =>
      cases u with
      | nil =>
          simp only [List.flatMap_nil, List.nil_append, List.flatMap_cons, List.append_assoc] at heq
          exact absurd heq (hmark c _ _)
      | cons e u =>
          simp only [List.flatMap_cons, List.append_assoc] at heq
          obtain ⟨rfl, hmore⟩ := h heq
          obtain ⟨rfl, rfl⟩ := ih hmore
          exact ⟨rfl, rfl⟩

end Legible

/-- A text up to a mark that it does not hold is told apart from what comes behind the mark. -/
theorem eq_of_append_cons {α : Type} [DecidableEq α] {x : α} {front front' rest rest' : List α}
    (hfront : x ∉ front) (hfront' : x ∉ front') (h : front ++ x :: rest = front' ++ x :: rest') :
    front = front' ∧ rest = rest' := by
  have heq : front = front' := by
    have hsplit := congrArg (List.splitOn x) h
    rw [List.splitOn_append_cons_self_of_not_mem hfront,
      List.splitOn_append_cons_self_of_not_mem hfront'] at hsplit
    exact (List.cons.inj hsplit).1
  subst heq
  exact ⟨rfl, (List.cons.inj (List.append_cancel_left h)).2⟩

/-! ### Escapes -/

namespace Text

variable {c e : Char} {letters : List (Char × Char)} {number : Text → Option (Char × Text)}

/-- The value of a hexadecimal digit. -/
def hexDigit (c : Char) : Nat :=
  "0123456789abcdef".toList.idxOf c

/-- The number that hexadecimal digits stand for. -/
def hexValue (t : Text) : Nat :=
  t.foldl (fun n c => 16 * n + hexDigit c) 0

theorem hexDigit_digitChar : ∀ n < 16, hexDigit (Nat.digitChar n) = n := by
  decide

/-- The digits of a number stand for it. -/
theorem hexValue_toDigits (n : Nat) : hexValue (Nat.toDigits 16 n) = n := by
  induction n using Nat.strongRecOn with
  | _ n ih =>
    by_cases hn : n < 16
    · rw [Nat.toDigits_of_lt_base hn, hexValue, List.foldl_cons, hexDigit_digitChar n hn]
      simp
    · have hvalue := ih (n / 16) (by omega)
      rw [hexValue] at hvalue
      rw [Nat.toDigits_of_base_le (by decide) (by omega), hexValue, List.foldl_append, hvalue,
        List.foldl_cons, List.foldl_nil, hexDigit_digitChar _ (by omega)]
      omega

/-- The digits of a number are digits. -/
theorem exists_digitChar_of_mem_toDigits {n : Nat} (h : c ∈ Nat.toDigits 16 n) :
    ∃ k, c = Nat.digitChar k := by
  induction n using Nat.strongRecOn with
  | _ n ih =>
    by_cases hn : n < 16
    · rw [Nat.toDigits_of_lt_base hn, List.mem_singleton] at h
      exact ⟨n, h⟩
    · rw [Nat.toDigits_of_base_le (by decide) (by omega), List.mem_append,
        List.mem_singleton] at h
      exact h.elim (ih (n / 16) (by omega)) fun h => ⟨_, h⟩

/-- Reads a character that is written as itself or as an escape: behind a backslash, `u` begins
a number, some letters stand for other characters, and any other character for itself. -/
def readEscape? (letters : List (Char × Char)) (number : Text → Option (Char × Text)) :
    Text → Option (Char × Text)
  | [] => none
  | c :: rest =>
    if c ≠ '\\' then some (c, rest)
    else match rest with
      | [] => none
      | e :: rest => if e = 'u' then number rest else some ((letters.lookup e).getD e, rest)

/-- A character that is no backslash is read as itself. -/
theorem readEscape?_self (hc : c ≠ '\\') (rest : Text) :
    readEscape? letters number (c :: rest) = some (c, rest) :=
  if_pos hc

/-- **Escapes that are read back make a text legible** up to a mark for which there is an escape. -/
theorem legible_escaped {escape : Char → Text} {mark : Char} {more : Text}
    (hread : ∀ c rest, readEscape? letters number (escape c ++ rest) = some (c, rest))
    (hmark : mark ≠ '\\') (hescape : escape mark = '\\' :: more) :
    Legible fun (t : Text) r => t.flatMap escape ++ mark :: r := by
  have hlegible : Legible fun c r => escape c ++ r := Legible.of_read hread
  refine hlegible.flatMap fun c r s h => ?_
  have hback := hread c r
  rw [h, readEscape?_self hmark] at hback
  obtain ⟨rfl, -⟩ := Prod.mk.inj (Option.some.inj hback)
  rw [hescape] at h
  exact hmark (List.cons.inj h).1.symm

end Text

/-! ### Parts that may be missing -/

section Parts

variable {α β : Type} {part : β × α → Text → Text} {last : Text → Text}
  {ms ms' : List (β × Option α)} {label : β} {a : α} {r s : Text}

/-- Labelled parts, one behind the other. Nothing is written for a missing one. -/
def writeParts (part : β × α → Text → Text) (last : Text → Text) :
    List (β × Option α) → Text → Text
  | [], rest => last rest
  | (_, none) :: more, rest => writeParts part last more rest
  | (label, some a) :: more, rest => part (label, a) (writeParts part last more rest)

/-- What stands in front of the parts is one of them. -/
theorem mem_of_writeParts_eq (hpart : Legible part) (hlast : ∀ m r s, part m r ≠ last s)
    (h : writeParts part last ms r = part (label, a) s) : label ∈ ms.map Prod.fst := by
  induction ms with
  | nil => exact absurd h.symm (hlast _ _ _)
  | cons m ms ih =>
      obtain ⟨label', _ | b⟩ := m
      · exact List.mem_cons_of_mem _ (ih h)
      · obtain ⟨heq, -⟩ := hpart h
        obtain ⟨rfl, -⟩ := Prod.mk.inj heq
        exact List.mem_cons_self

/-- **Labelled parts are told apart** in front of any text, also by which of them are missing, if
no label comes twice and what stands behind them is not taken for a part. -/
theorem writeParts_inj (hpart : Legible part) (hlast : ∀ m r s, part m r ≠ last s)
    (hinj : Function.Injective last) (hlabels : ms.map Prod.fst = ms'.map Prod.fst)
    (hnodup : (ms.map Prod.fst).Nodup)
    (h : writeParts part last ms r = writeParts part last ms' s) : ms = ms' ∧ r = s := by
  induction ms generalizing ms' with
  | nil =>
      obtain rfl : ms' = [] := by simpa using hlabels.symm
      exact ⟨rfl, hinj h⟩
  | cons m ms ih =>
      cases ms' with
      | nil => simp at hlabels
      | cons m' ms' =>
          obtain ⟨label, p⟩ := m
          obtain ⟨label', p'⟩ := m'
          obtain ⟨rfl, htails⟩ : label = label' ∧ ms.map Prod.fst = ms'.map Prod.fst := by
            simpa using hlabels
          obtain ⟨hfresh, hlater⟩ : label ∉ ms.map Prod.fst ∧ (ms.map Prod.fst).Nodup :=
            List.nodup_cons.mp hnodup
          -- a part that is missing on one side only would come again among the later labels
          cases p with
          | none =>
              rw [writeParts] at h
              cases p' with
              | none =>
                  rw [writeParts] at h
                  obtain ⟨rfl, rfl⟩ := ih htails hlater h
                  exact ⟨rfl, rfl⟩
              | some b => exact absurd (mem_of_writeParts_eq hpart hlast h) hfresh
          | some a =>
              cases p' with
              | none =>
                  rw [eq_comm, writeParts] at h
                  exact absurd (htails ▸ mem_of_writeParts_eq hpart hlast h) hfresh
              | some b =>
                  obtain ⟨heq, hmore⟩ := hpart h
                  obtain ⟨-, rfl⟩ := Prod.mk.inj heq
                  obtain ⟨rfl, rfl⟩ := ih htails hlater hmore
                  exact ⟨rfl, rfl⟩

end Parts

end BoolQuery
