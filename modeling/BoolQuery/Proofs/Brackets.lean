import BoolQuery.Dialect.Basic
import Mathlib.Tactic.Common

/-!
# Balanced Rows of Brackets

A row of brackets is **balanced** when it belongs to the Dyck language of the three classes:
brackets are put one balanced row after the other, or as a pair of one class around a balanced
row. Whatever a bracket is read from, a character or a token, it has a match when it closes
around a balanced row.

A row that is not balanced may still be the front of one that is. It then is made of balanced
rows with opening brackets between them that have no match, and these wait for their closing
ones, the last one first.

## Main definitions

* `Balanced`: the Dyck language.
* `Extendable`: the fronts of balanced rows.
* `Closed`, `LastOpen`: opening brackets with a match, and the last one without.
* `Waits`: the opening brackets that wait in a row.

## Main results

* `lastOpen_of_balanced`: an opening bracket before a balanced row is the last one without a match.
* `LastOpen.unique`: there is only one.
* `Waits.extendable`, `Waits.not_extendable`: what may come next where brackets wait.
-/

namespace BoolQuery

/-- The Dyck language of the three classes of brackets. -/
inductive Balanced : List Bracket → Prop
  | nil : Balanced []
  | append {bs cs : List Bracket} : Balanced bs → Balanced cs → Balanced (bs ++ cs)
  | pair {bs : List Bracket} (kind : BracketKind) :
      Balanced bs → Balanced (⟨kind, .opening⟩ :: (bs ++ [⟨kind, .closing⟩]))

/-- The row is the front of a balanced one. -/
def Extendable (bs : List Bracket) : Prop :=
  ∃ more, Balanced (bs ++ more)

variable {bs cs front behind : List Bracket} {kind : BracketKind}

/-- A balanced row is the front of itself. -/
theorem Balanced.extendable (h : Balanced bs) : Extendable bs :=
  ⟨[], by rwa [List.append_nil]⟩

/-- A front of the front of a balanced row is one too. -/
theorem Extendable.of_append (h : Extendable (bs ++ cs)) : Extendable bs := by
  obtain ⟨more, hmore⟩ := h
  exact ⟨cs ++ more, by rwa [List.append_assoc] at hmore⟩

/-! ### Following a row with a stack -/

/-- The classes of the brackets that wait after a bracket, the last one first; none when it
closes something else than what waits. -/
def Bracket.follow : (waiting : List BracketKind) → Bracket → Option (List BracketKind)
  | waiting, ⟨kind, .opening⟩ => some (kind :: waiting)
  | [], ⟨_, .closing⟩ => none
  | top :: waiting, ⟨kind, .closing⟩ => if top = kind then some waiting else none

/-- A balanced row leaves what waits as it is. -/
theorem Balanced.follow (h : Balanced bs) (waiting : List BracketKind) :
    bs.foldlM Bracket.follow waiting = some waiting := by
  induction h generalizing waiting with
  | nil => rfl
  | append _ _ ihb ihc => rw [List.foldlM_append, ihb]; exact ihc waiting
  | pair kind _ ih =>
      rw [List.foldlM_cons, Bracket.follow, Option.bind_eq_bind, Option.bind_some,
        List.foldlM_append, ih]
      simp [Bracket.follow]

/-- A row that cannot be followed is the front of no balanced row. -/
theorem not_extendable_of_follow (h : bs.foldlM Bracket.follow [] = none) : ¬ Extendable bs := by
  rintro ⟨more, hmore⟩
  have hfollow := hmore.follow []
  rw [List.foldlM_append, h] at hfollow
  cases hfollow

/-! ### Matching brackets -/

/-- In a balanced row every opening bracket closes around a balanced row. Induction on the way
the row is made: the bracket is in one of the two parts, or it is the pair itself. -/
theorem Balanced.exists_match (h : Balanced bs) (hbs : bs = front ++ ⟨kind, .opening⟩ :: behind) :
    ∃ inner outer, behind = inner ++ ⟨kind, .closing⟩ :: outer ∧ Balanced inner := by
  induction h generalizing front behind with
  | nil => simp at hbs
  | @append bs cs _ _ ihb ihc =>
      rcases List.append_eq_append_iff.mp hbs with ⟨mid, rfl, hcs⟩ | ⟨mid, rfl, hmid⟩
      · exact ihc hcs
      · cases mid with
        | nil =>
            have hcs : cs = [] ++ ⟨kind, .opening⟩ :: behind := hmid.symm
            exact ihc hcs
        | cons b mid =>
            obtain ⟨rfl, rfl⟩ := List.cons.inj hmid
            obtain ⟨inner, outer, rfl, hinner⟩ := ihb rfl
            exact ⟨inner, outer ++ cs, by simp, hinner⟩
  | @pair bs kind' hbalanced ih =>
      cases front with
      | nil =>
          obtain ⟨hhead, rfl⟩ := List.cons.inj hbs
          obtain rfl : kind' = kind := congrArg Bracket.kind hhead
          exact ⟨bs, [], rfl, hbalanced⟩
      | cons b front =>
          obtain ⟨rfl, hrest⟩ := List.cons.inj hbs
          -- the bracket is not the last one of the pair, which closes
          rcases List.append_eq_append_iff.mp hrest with ⟨mid, rfl, hmid⟩ | ⟨mid, rfl, hmid⟩
          · rcases mid with _ | ⟨_, _ | _⟩ <;> simp at hmid
          · cases mid with
            | nil => simp at hmid
            | cons b mid =>
                obtain ⟨rfl, rfl⟩ := List.cons.inj hmid
                obtain ⟨inner, outer, rfl, hinner⟩ := ih rfl
                exact ⟨inner, outer ++ [⟨kind', .closing⟩], by simp, hinner⟩

section Read

variable {α : Type} {read : α → Option Bracket} {row before before' after after' : List α} {x y : α}
  {st : List α}

/-- An opening bracket of the class has its match in what stands behind it. -/
def Closed (read : α → Option Bracket) (kind : BracketKind) (after : List α) : Prop :=
  ∃ inner x outer, after = inner ++ x :: outer ∧ read x = some ⟨kind, .closing⟩ ∧
    Balanced (inner.filterMap read)

/-- `x` is the last opening bracket of the row that has no match in it. -/
def LastOpen (read : α → Option Bracket) (row : List α) (x : α) : Prop :=
  ∃ before after kind, row = before ++ x :: after ∧ read x = some ⟨kind, .opening⟩ ∧
    ¬ Closed read kind after ∧
    ∀ inner y outer kind', after = inner ++ y :: outer → read y = some ⟨kind', .opening⟩ →
      Closed read kind' outer

/-- In a balanced row every opening bracket has its match. -/
theorem Balanced.closed (h : Balanced (row.filterMap read)) (hrow : row = before ++ x :: after)
    (hx : read x = some ⟨kind, .opening⟩) : Closed read kind after := by
  have hsplit : row.filterMap read
      = before.filterMap read ++ ⟨kind, .opening⟩ :: after.filterMap read := by
    rw [hrow, List.filterMap_append, List.filterMap_cons_some hx]
  obtain ⟨inner, outer, hafter, hinner⟩ := h.exists_match hsplit
  obtain ⟨row₁, row₂, rfl, rfl, hrow₂⟩ := List.filterMap_eq_append_iff.mp hafter
  obtain ⟨idle, y, row₃, rfl, hidle, hy, -⟩ := List.filterMap_eq_cons_iff.mp hrow₂
  refine ⟨row₁ ++ idle, y, row₃, by simp, hy, ?_⟩
  rwa [List.filterMap_append, List.filterMap_eq_nil_iff.mpr hidle, List.append_nil]

/-- A balanced row has no bracket that closes one before it. -/
theorem Balanced.not_closed (h : Balanced (row.filterMap read)) : ¬ Closed read kind row := by
  rintro ⟨inner, x, outer, rfl, hx, hinner⟩
  have hfollow := h.follow []
  rw [List.filterMap_append, List.filterMap_cons_some hx, List.foldlM_append,
    hinner.follow] at hfollow
  simp [Bracket.follow] at hfollow

/-- **An opening bracket before a balanced row** is the last one without a match. -/
theorem lastOpen_of_balanced (before : List α) (hx : read x = some ⟨kind, .opening⟩)
    (hafter : Balanced (after.filterMap read)) : LastOpen read (before ++ x :: after) x :=
  ⟨before, after, kind, rfl, hx, hafter.not_closed, fun _ _ _ _ hsplit hy =>
    hafter.closed hsplit hy⟩

/-- Two items of a row stand in the same place, or one of them behind the other. -/
theorem eq_or_behind (h : before ++ x :: after = before' ++ y :: after') :
    x = y ∨ (∃ between, before' = before ++ x :: between ∧ after = between ++ y :: after') ∨
      ∃ between, before = before' ++ y :: between ∧ after' = between ++ x :: after := by
  rcases List.append_eq_append_iff.mp h with ⟨mid, rfl, hmid⟩ | ⟨mid, rfl, hmid⟩
  · cases mid with
    | nil => exact .inl (List.cons.inj hmid).1
    | cons z mid =>
        obtain ⟨rfl, hbehind⟩ := List.cons.inj hmid
        exact .inr (.inl ⟨mid, rfl, hbehind⟩)
  · cases mid with
    | nil => exact .inl (List.cons.inj hmid).1.symm
    | cons z mid =>
        obtain ⟨rfl, hbehind⟩ := List.cons.inj hmid
        exact .inr (.inr ⟨mid, rfl, hbehind⟩)

/-- **There is only one last opening bracket without a match.** -/
theorem LastOpen.unique (hx : LastOpen read row x) (hy : LastOpen read row y) : x = y := by
  obtain ⟨before, after, kind, rfl, hread, hopen, hlast⟩ := hx
  obtain ⟨before', after', kind', hrow, hread', hopen', hlast'⟩ := hy
  -- the one in front would be closed, or the one behind
  rcases eq_or_behind hrow with heq | ⟨between, -, rfl⟩ | ⟨between, -, rfl⟩
  · exact heq
  · exact absurd (hlast _ _ _ _ rfl hread') hopen'
  · exact absurd (hlast' _ _ _ _ rfl hread) hopen

/-! ### Waiting brackets -/

/-- The items `waiting` of the row, the last one first, are opening brackets without a match; what
stands before, between and behind them is balanced. -/
inductive Waits (read : α → Option Bracket) : (row waiting : List α) → Prop
  | none {row : List α} : Balanced (row.filterMap read) → Waits read row []
  | opening {row waiting after : List α} {x : α} {kind : BracketKind} :
      Waits read row waiting → read x = some ⟨kind, .opening⟩ →
      Balanced (after.filterMap read) → Waits read (row ++ x :: after) (x :: waiting)

namespace Waits

variable {waiting : List α}

/-- What waits is an opening bracket. -/
theorem exists_read (h : Waits read row (x :: waiting)) :
    ∃ kind, read x = some ⟨kind, .opening⟩ := by
  cases h with
  | opening _ hx _ => exact ⟨_, hx⟩

/-- When nothing waits, the row is balanced. -/
theorem balanced (h : Waits read row []) : Balanced (row.filterMap read) := by
  cases h with
  | none hrow => exact hrow

/-- A balanced row behind it changes nothing. -/
theorem append (h : Waits read row waiting) (hafter : Balanced (after.filterMap read)) :
    Waits read (row ++ after) waiting := by
  cases h with
  | none hrow => exact .none (by rw [List.filterMap_append]; exact hrow.append hafter)
  | opening hwaits hx hinner =>
      rw [List.append_assoc, List.cons_append]
      exact .opening hwaits hx (by rw [List.filterMap_append]; exact hinner.append hafter)

/-- A closing bracket of its class is the match of the bracket that waited last. -/
theorem close (h : Waits read row (x :: waiting)) (hx : read x = some ⟨kind, .opening⟩)
    (hy : read y = some ⟨kind, .closing⟩) : Waits read (row ++ [y]) waiting := by
  cases h with
  | @opening row _ inner _ kind' hwaits hx' hinner =>
      obtain rfl : kind' = kind := by
        rw [hx] at hx'
        exact (congrArg Bracket.kind (Option.some.inj hx')).symm
      have hpair : Balanced ((x :: (inner ++ [y])).filterMap read) := by
        rw [List.filterMap_cons_some hx, List.filterMap_append, List.filterMap_cons_some hy]
        exact hinner.pair kind'
      simpa using hwaits.append hpair

/-- Following the row leaves the brackets that wait. -/
theorem follow (h : Waits read row waiting) :
    (row.filterMap read).foldlM Bracket.follow []
      = some ((waiting.filterMap read).map Bracket.kind) := by
  induction h with
  | none hrow => exact hrow.follow []
  | opening _ hx hinner ih =>
      rw [List.filterMap_append, List.filterMap_cons_some hx, List.foldlM_append, ih]
      rw [List.filterMap_cons_some hx]
      exact hinner.follow _

/-- **Where brackets wait, the row can still be made balanced**, by closing them in turn. -/
theorem extendable (h : Waits read row waiting) : Extendable (row.filterMap read) := by
  suffices hclose : ∀ {bs}, Balanced bs → ∃ more, Balanced (row.filterMap read ++ bs ++ more) by
    obtain ⟨more, hmore⟩ := hclose .nil
    exact ⟨more, by rwa [List.append_nil] at hmore⟩
  induction h with
  | none hrow => exact fun hbs => ⟨[], by rw [List.append_nil]; exact hrow.append hbs⟩
  | @opening row waiting inner x kind hwaits hx hinner ih =>
      intro bs hbs
      obtain ⟨more, hmore⟩ := ih ((hinner.append hbs).pair kind)
      exact ⟨⟨kind, .closing⟩ :: more, by simpa [List.filterMap_cons_some hx] using hmore⟩

/-- **A closing bracket that does not close what waited last** is the end of it. -/
theorem not_extendable (h : Waits read row waiting) (hy : read y = some ⟨kind, .closing⟩)
    (hne : ∀ x ∈ waiting.head?, read x ≠ some ⟨kind, .opening⟩) :
    ¬ Extendable ((row ++ [y]).filterMap read) := by
  apply not_extendable_of_follow
  rw [List.filterMap_append, List.filterMap_cons_some hy, List.foldlM_append, h.follow]
  cases h with
  | none _ => rfl
  | @opening _ _ _ x kind' _ hx _ =>
      have hkind : kind' ≠ kind := by
        rintro rfl
        exact hne x rfl hx
      simp [List.filterMap_cons_some hx, Bracket.follow, hkind]

/-- The bracket that waited last is the last one without a match. -/
theorem lastOpen (h : Waits read row (x :: waiting)) : LastOpen read row x := by
  cases h with
  | opening _ hx hinner => exact lastOpen_of_balanced _ hx hinner

/-- Where a bracket waits, the row is not balanced. -/
theorem not_balanced (h : Waits read row (x :: waiting)) :
    ¬ Balanced (row.filterMap read) := by
  intro hrow
  have hfollow := h.follow
  rw [hrow.follow] at hfollow
  cases h with
  | opening _ hx _ => simp [List.filterMap_cons_some hx] at hfollow

end Waits

end Read

end BoolQuery
