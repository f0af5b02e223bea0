import BoolQuery.Files.Path
import Mathlib.Data.List.Infix
import Mathlib.Data.List.TakeWhile
import Mathlib.Tactic.Common

/-!
# The Ancestors of a Path

Paths are cut as texts, from the end: the parent of a path is what is left when its last name is
taken away, with the separators and idle names in front of it. As far as the places are concerned
that paths lead to, only their components count. The parent has all components of the path but the
last, so the ancestors lead to all places on the way to the path, the nearest one first. An
absolute path ends at the root, and a relative one at the working directory, which has no
component at all.

## Main definitions

* `Path.names`: the names in a text that say something.
* `Path.IsAbsolute`: paths that begin at the root.

## Main results

* `Path.names_trim`, `Path.names_dropName`: what is taken away at the end of a path.
* `Path.components_of_parent?`, `Path.components_of_parent?_eq_none`: the parent of a path.
* `Path.map_components_ancestors`: the ancestors of a path.
-/

namespace BoolQuery.Path

variable {p q : Path} {n r t : Text}

/-! ### Names -/

/-- The names in a text that say something. -/
def names (t : Text) : List Text :=
  (t.splitOn '/').filter (!isIdle ·)

theorem components_eq (p : Path) :
    p.components = [p.split.1].filter (!·.isEmpty) ++ names p.split.2 :=
  rfl

@[simp] theorem names_nil : names [] = [] := by
  simp [names, isIdle]

/-- A separator stands between names. -/
theorem names_append_separator (s t : Text) : names (s ++ '/' :: t) = names s ++ names t := by
  rw [names, List.splitOn_append_cons_self, List.filter_append]
  rfl

/-- A text without a separator is one name. -/
theorem names_of_notMem (h : '/' ∉ n) : names n = if isIdle n then [] else [n] := by
  rw [names, List.splitOn_eq_singleton h]
  cases hidle : isIdle n <;> simp [hidle]

theorem isIdle_reverse (n : Text) : isIdle n.reverse = isIdle n := by
  have hdot : (n.reverse == ['.']) = (n == ['.']) := by
    rw [Bool.eq_iff_iff, beq_iff_eq, beq_iff_eq, List.reverse_eq_iff]
    rfl
  simp [isIdle, hdot]

/-- The last name of a text that is held backwards, and the names in front of it. -/
theorem names_reverse (r : Text) :
    names r.reverse = names ((r.dropWhile (· != '/')).drop 1).reverse
      ++ if isIdle (r.takeWhile (· != '/')) then [] else [(r.takeWhile (· != '/')).reverse] := by
  have hsplit := (List.takeWhile_append_dropWhile (p := (· != '/')) (l := r)).symm
  have hlast : '/' ∉ (r.takeWhile (· != '/')).reverse := by
    intro hmem
    have := List.mem_takeWhile_imp (List.mem_reverse.mp hmem)
    simp at this
  cases hrest : r.dropWhile (· != '/') with
  | nil =>
      rw [hrest, List.append_nil] at hsplit
      rw [← hsplit] at hlast ⊢
      rw [names_of_notMem hlast, isIdle_reverse]
      simp
  | cons c rest =>
      have hc : c = '/' := by
        have := List.head_dropWhile_not (· != '/') (by rw [hrest]; simp)
        simpa [hrest] using this
      rw [hrest, hc] at hsplit
      rw [congrArg List.reverse hsplit, List.reverse_append, List.reverse_cons, List.append_assoc,
        List.singleton_append, names_append_separator, names_of_notMem hlast, isIdle_reverse,
        List.drop_one, List.tail_cons]

/-! ### What is taken away at the end -/

/-- Names that say nothing are dropped from the end of a text without a loss. -/
theorem names_trim (r : Text) : names (trim r).reverse = names r.reverse := by
  fun_induction trim r with
  | case1 r hidle hrest => rw [names_reverse r, hrest, if_pos hidle]; simp
  | case2 r hidle c rest hrest ih => rw [names_reverse r, hrest, if_pos hidle, ih]; simp
  | case3 r hidle => rfl

/-- What is left then ends in a name that says something, if anything is left. -/
theorem trim_eq_nil_or (r : Text) :
    trim r = [] ∨ isIdle ((trim r).takeWhile (· != '/')) = false := by
  fun_induction trim r with
  | case1 => exact .inl rfl
  | case2 r hidle c rest hrest ih => exact ih
  | case3 r hidle => exact .inr (by simpa using hidle)

/-- Nothing but the end is dropped. -/
theorem trim_suffix (r : Text) : trim r <:+ r := by
  fun_induction trim r with
  | case1 r => exact List.nil_suffix
  | case2 r hidle c rest hrest ih =>
      have hcons : rest <:+ c :: rest := List.suffix_cons c rest
      rw [← hrest] at hcons
      exact ih.trans (hcons.trans (List.dropWhile_suffix _))
  | case3 r => exact List.suffix_rfl

/-- Dropping the last name drops one name. -/
theorem names_dropName (h : isIdle (r.takeWhile (· != '/')) = false) :
    names (dropName r).reverse = (names r.reverse).dropLast ∧ names r.reverse ≠ [] := by
  rw [dropName, names_trim, names_reverse r, h]
  simp

theorem dropName_suffix (r : Text) : dropName r <:+ r :=
  (trim_suffix _).trans ((List.drop_suffix 1 _).trans (List.dropWhile_suffix _))

/-- What is left is not a dot alone, which says nothing. -/
theorem dropName_ne_dot (r : Text) : dropName r ≠ ['.'] := by
  intro hdot
  rw [dropName] at hdot
  rcases trim_eq_nil_or ((r.dropWhile (· != '/')).drop 1) with hnil | hname
  · rw [hnil] at hdot
    cases hdot
  · rw [hdot] at hname
    exact absurd hname (by decide)

/-! ### The front -/

/-- True of paths that begin at the root. -/
def IsAbsolute (p : Path) : Prop :=
  p.head? = some '/'

instance (p : Path) : Decidable p.IsAbsolute :=
  inferInstanceAs (Decidable (_ = _))

/-- The front of a path says whether it is absolute, and if not, there is at most a dot in it. -/
theorem split_fst_cases (p : Path) :
    p.IsAbsolute ∧ p.split.1 = ['/'] ∨
      ¬ p.IsAbsolute ∧ (p.split.1 = [] ∨ p.split.1 = ['.']) := by
  fun_cases split p with
  | case1 rest => exact .inl ⟨rfl, rfl⟩
  | case2 => exact .inr ⟨by decide, .inr rfl⟩
  | case3 rest => exact .inr ⟨by simp [IsAbsolute], .inr rfl⟩
  | case4 p hroot _ _ =>
      refine .inr ⟨fun habsolute => ?_, .inl rfl⟩
      obtain ⟨rest, rfl⟩ := List.head?_eq_some_iff.mp habsolute
      exact hroot rest rfl

theorem isAbsolute_iff : p.IsAbsolute ↔ p.split.1 = ['/'] := by
  rcases split_fst_cases p with ⟨habsolute, hfront⟩ | ⟨hrelative, hfront | hfront⟩ <;>
    simp [*]

/-- A path that is cut off in its rest keeps its front, unless what is left of the rest would be
read as one. -/
theorem split_append_of_prefix {rest : Text} (h : rest <+: p.split.2) (hdot : rest ≠ ['.']) :
    split (p.split.1 ++ rest) = (p.split.1, rest) := by
  revert h
  fun_cases split p with
  | case1 => exact fun _ => rfl
  | case2 =>
      intro h
      rw [List.prefix_nil.mp h]
      rfl
  | case3 =>
      intro h
      cases rest with
      | nil => rfl
      | cons c rest =>
          obtain ⟨rfl, -⟩ := List.cons_prefix_cons.mp h
          rfl
  | case4 p hroot _ hhere =>
      rintro ⟨more, rfl⟩
      rw [List.nil_append]
      fun_cases split rest with
      | case1 => exact absurd rfl (hroot _)
      | case2 => exact absurd rfl hdot
      | case3 => exact absurd rfl (hhere _)
      | case4 => rfl

/-! ### Parents and ancestors -/

/-- **The parent of a path** has all of its components but the last, and begins where it does. -/
theorem components_of_parent? (h : p.parent? = some q) :
    p.components ≠ [] ∧ q.components = p.components.dropLast ∧
      (q.IsAbsolute ↔ p.IsAbsolute) := by
  have hnames := names_trim p.split.2.reverse
  rw [List.reverse_reverse] at hnames
  rw [parent?] at h
  split at h
  · next htrim =>
    rw [htrim] at hnames
    split at h
    · next hfront =>
      -- the path is a dot, and its parent is empty
      obtain rfl := Option.some.inj h
      have hcomponents : p.components = [['.']] := by
        rw [components_eq, hfront, ← hnames]
        simp
      rw [hcomponents, isAbsolute_iff, isAbsolute_iff, hfront]
      exact ⟨by simp, rfl, by decide⟩
    · cases h
  · next c r htrim =>
    obtain rfl := Option.some.inj h
    rw [htrim] at hnames
    have hname : isIdle ((c :: r).takeWhile (· != '/')) = false := by
      rcases trim_eq_nil_or p.split.2.reverse with hnil | hname
      · rw [htrim] at hnil
        cases hnil
      · rwa [htrim] at hname
    obtain ⟨hlast, hne⟩ := names_dropName hname
    rw [hnames] at hlast hne
    have hprefix : (dropName (c :: r)).reverse <+: p.split.2 := by
      have hsuffix := (dropName_suffix (c :: r)).trans (htrim ▸ trim_suffix p.split.2.reverse)
      rw [← List.reverse_prefix, List.reverse_reverse] at hsuffix
      exact hsuffix
    have hdot : (dropName (c :: r)).reverse ≠ ['.'] := by
      intro hdot
      exact dropName_ne_dot (c :: r) (List.reverse_eq_iff.mp hdot)
    have hsplit := split_append_of_prefix hprefix hdot
    rw [isAbsolute_iff, isAbsolute_iff, components_eq, components_eq, hsplit, hlast,
      List.dropLast_append_of_ne_nil hne]
    exact ⟨by simp [hne], rfl, Iff.rfl⟩

/-- A path without a parent is the root, or has no component. -/
theorem components_of_parent?_eq_none (h : p.parent? = none) :
    p.components = if p.IsAbsolute then [['/']] else [] := by
  have hnames := names_trim p.split.2.reverse
  rw [List.reverse_reverse] at hnames
  rw [parent?] at h
  split at h
  · next htrim =>
    rw [htrim] at hnames
    rw [components_eq, ← hnames]
    rcases split_fst_cases p with ⟨habsolute, hfront⟩ | ⟨hrelative, hfront | hfront⟩
    · rw [if_pos habsolute, hfront]
      rfl
    · rw [if_neg hrelative, hfront]
      rfl
    · rw [if_pos hfront] at h
      cases h
  · cases h

/-- **The ancestors of a path** lead to the initial parts of its components, longest first. If the
path is absolute, the last one is the root. -/
theorem map_components_ancestors (p : Path) :
    p.ancestors.map components = if p.IsAbsolute then p.components.inits.reverse.dropLast
      else p.components.inits.reverse := by
  induction p using ancestors.induct with
  | _ p ih =>
  rw [ancestors]
  split
  · next hnone =>
    rw [List.map_singleton, components_of_parent?_eq_none hnone]
    split <;> rfl
  · next q hparent =>
    obtain ⟨hne, hcomponents, habsolute⟩ := components_of_parent? hparent
    have hinits : p.components.inits.reverse = p.components :: q.components.inits.reverse := by
      obtain ⟨front, last, hsplit⟩ := p.components.eq_nil_or_concat.resolve_left hne
      rw [hcomponents, hsplit]
      simp [List.inits_append]
    rw [List.map_cons, ih q hparent, hinits]
    by_cases hroot : p.IsAbsolute
    · have hne : q.components.inits.reverse ≠ [] := List.ne_nil_of_length_pos (by simp)
      rw [if_pos hroot, if_pos (habsolute.mpr hroot), List.dropLast_cons_of_ne_nil hne]
    · rw [if_neg hroot, if_neg (mt habsolute.mp hroot)]

/-! ### Files in a directory -/

/-- More behind a separator leaves the front of a path as it is. -/
theorem split_append_separator (hne : p ≠ []) (n : Text) :
    split (p ++ '/' :: n) = (p.split.1, p.split.2 ++ '/' :: n) := by
  fun_cases split p with
  | case1 | case2 | case3 => rfl
  | case4 p hroot hdot hhere =>
      obtain ⟨c, p, rfl⟩ := List.exists_cons_of_ne_nil hne
      rw [List.cons_append, split]
      · rintro rest ⟨⟩
        exact hroot p rfl
      · simp
      · intro rest h
        obtain ⟨rfl, hrest⟩ := List.cons.inj h
        cases p with
        | nil => exact hdot rfl
        | cons c p =>
            obtain ⟨rfl, -⟩ := List.cons.inj hrest
            exact hhere p rfl

/-- **A file in a directory** has the components of the directory and its own name. -/
theorem components_join (hsep : '/' ∉ n) (hname : isIdle n = false) (p : Path) :
    (p.join n).components = p.components ++ [n] := by
  have hnames : names n = [n] := by rw [names_of_notMem hsep, hname]; rfl
  have hbehind : ∀ {p : Path}, p ≠ [] → components (p ++ '/' :: n) = p.components ++ [n] := by
    intro p hne
    rw [components_eq, components_eq, split_append_separator hne, names_append_separator, hnames,
      List.append_assoc]
  rw [join]
  split
  · next hend =>
    rcases p.eq_nil_or_concat with rfl | ⟨front, c, rfl⟩
    · -- in the empty path there is the name alone
      have hsplit : split n = ([], n) := by
        rw [split]
        · rintro rest rfl
          exact hsep List.mem_cons_self
        · rintro rfl
          cases hname
        · rintro rest rfl
          exact hsep (by simp)
      rw [List.nil_append, components_eq, hsplit, hnames]
      rfl
    · -- the separator is there already
      obtain rfl : c = '/' := by simpa using hend
      rw [List.concat_eq_append, List.append_assoc, List.singleton_append]
      by_cases hne : front = []
      · subst hne
        have hroot : components ('/' :: n) = ['/'] :: names n := rfl
        rw [List.nil_append, hroot, hnames]
        rfl
      · rw [hbehind hne, components_eq (front ++ ['/']), split_append_separator hne,
          names_append_separator, names_nil, List.append_nil, ← components_eq]
  · next hend =>
    have hne : p ≠ [] := by
      rintro rfl
      simp at hend
    exact hbehind hne

end BoolQuery.Path
