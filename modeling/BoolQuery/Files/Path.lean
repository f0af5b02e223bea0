import BoolQuery.Text.Basic

/-!
# Paths

A path is a text in which `/` separates names. The names `.` and the empty name say nothing,
except for a `.` at the very front.

## Main definitions

* `Path.join`: a path with a name added.
* `Path.parent?`: a path without its last name.
* `Path.ancestors`: a path, its parent, the parent of that, and so on.
* `Path.components`: the names of a path; two paths with the same ones are the same place.

## Main results

* `Path.length_lt_of_parent?`: a parent is shorter, so there is an end to the ancestors.
-/

namespace BoolQuery

/-- A path in a file system. -/
abbrev Path : Type := Text

namespace Path

/-- The path with a name added. -/
def join (p : Path) (name : Text) : Path :=
  if p.isEmpty || p.getLast? = some '/' then p ++ name else p ++ '/' :: name

/-- The front of a path, which is `/`, `.` or nothing, and the rest. -/
def split : Path → Text × Text
  | '/' :: rest => (['/'], rest)
  | ['.'] => (['.'], [])
  | '.' :: '/' :: rest => (['.'], '/' :: rest)
  | p => ([], p)

/-- True for the names that say nothing. -/
def isIdle (name : Text) : Bool :=
  name.isEmpty || name == ['.']

/-- Drops the names that say nothing from the end of a path, which is held backwards. -/
def trim (r : Text) : Text :=
  if isIdle (r.takeWhile (· != '/')) then
    match _h : r.dropWhile (· != '/') with
    | [] => []
    | _ :: rest => trim rest
  else r
termination_by r.length
decreasing_by
  have := (List.dropWhile_suffix (l := r) (· != '/')).length_le
  rw [_h, List.length_cons] at this
  omega

/-- Drops the last name of a path, which is held backwards and does not end in a name that
says nothing, and what then ends in nothing. -/
def dropName (r : Text) : Text :=
  trim ((r.dropWhile (· != '/')).drop 1)

/-- A path without its last name; none for the root and for the empty path. -/
def parent? (p : Path) : Option Path :=
  match trim p.split.2.reverse with
  | [] => if p.split.1 = ['.'] then some [] else none
  | c :: r => some (p.split.1 ++ (dropName (c :: r)).reverse)

theorem length_trim_le (r : Text) : (trim r).length ≤ r.length := by
  fun_induction trim r with
  | case1 r _ _ => simp
  | case2 r _ c rest h ih =>
    have := (List.dropWhile_suffix (l := r) (· != '/')).length_le
    rw [h, List.length_cons] at this
    omega
  | case3 r _ => exact Nat.le_refl _

theorem length_dropName_lt (c : Char) (r : Text) :
    (dropName (c :: r)).length < (c :: r).length := by
  have h₁ := length_trim_le (((c :: r).dropWhile (· != '/')).drop 1)
  have h₂ := (List.dropWhile_suffix (l := c :: r) (· != '/')).length_le
  rw [List.length_drop] at h₁
  simp only [List.length_cons] at h₂ ⊢
  rw [dropName]
  omega

theorem length_split (p : Path) : p.split.1.length + p.split.2.length = p.length := by
  unfold split
  split <;> simp <;> omega

/-- A parent is shorter. -/
theorem length_lt_of_parent? {p q : Path} (h : p.parent? = some q) : q.length < p.length := by
  have hsplit := length_split p
  unfold parent? at h
  split at h
  · split at h
    · next hfront =>
      obtain rfl := Option.some.inj h
      rw [hfront] at hsplit
      simp only [List.length_cons, List.length_nil] at hsplit ⊢
      omega
    · simp at h
  · next c r htrim =>
    obtain rfl := Option.some.inj h
    have h₁ := length_trim_le p.split.2.reverse
    have h₂ := length_dropName_lt c r
    rw [htrim, List.length_reverse] at h₁
    simp only [List.length_append, List.length_reverse]
    omega

/-- A path, its parent, the parent of that, and so on. -/
def ancestors (p : Path) : List Path :=
  p :: match _h : p.parent? with
    | none => []
    | some q => ancestors q
termination_by p.length
decreasing_by exact length_lt_of_parent? _h

/-- The names of a path that say something, after its front. -/
def components (p : Path) : List Text :=
  [p.split.1].filter (!·.isEmpty) ++ (p.split.2.splitOn '/').filter (!isIdle ·)

end Path

end BoolQuery
