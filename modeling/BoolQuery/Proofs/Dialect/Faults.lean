import BoolQuery.Proofs.Balance
import Mathlib.Data.List.Induction

/-!
# The First Fault of a Dialect

The check of a dialect goes through two rows: the eight roles of special characters, and then
the three operators. Each item is held against those before it, and the first one at fault
decides the outcome. So the outcome can be told without the check: a dialect is unusable
because of the earliest role whose character is white space or stands for an earlier role, and
only if there is none, because of the earliest keyword that is empty, is made of the wrong
characters, or stands for an earlier operator.

A dialect that passes gives each bracket to one side of one class.

## Main definitions

* `Faultless`, `FirstFault`: rows whose items are held against those before them.
* `Role`, `Dialect.character`: the roles of special characters.
* `Dialect.RoleFault`, `Dialect.KeywordFault`: what is wrong with a character or a keyword.
* `Dialect.HasFault`: the first fault of a dialect.

## Main results

* `ChecksInTurn.eq_ok_iff`, `ChecksInTurn.eq_error_iff`: a check in turn finds the first fault.
* `Dialect.check_decides`: the outcome of the check, and what it means for brackets.
-/

namespace BoolQuery

/-! ### Checks in turn -/

section InTurn

variable {α ε : Type} {fault : List α → α → ε → Prop} {check : List α → List α → Except ε Unit}
  {front row : List α} {x : α} {e : ε}

/-- No item of the row is at fault, where `fault earlier x e` says that the item `x` has the fault
`e` behind the items `earlier`. -/
def Faultless (fault : List α → α → ε → Prop) (row : List α) : Prop :=
  ∀ earlier x later, row = earlier ++ x :: later → ∀ e, ¬ fault earlier x e

/-- The fault of the first item of the row that has one is `e`. -/
def FirstFault (fault : List α → α → ε → Prop) (row : List α) (e : ε) : Prop :=
  ∃ earlier x later, row = earlier ++ x :: later ∧ Faultless fault earlier ∧ fault earlier x e

/-- A check that goes through a row, holds each item against those before it, and ends at the
first fault. -/
structure ChecksInTurn (fault : List α → α → ε → Prop)
    (check : List α → List α → Except ε Unit) : Prop where
  /-- At the end of the row it succeeds. -/
  nil : ∀ earlier, check earlier [] = .ok ()
  /-- A fault is its outcome. -/
  stop : ∀ {earlier x e} later, fault earlier x e → check earlier (x :: later) = .error e
  /-- An item without a fault joins those that the next ones are held against. -/
  pass : ∀ {earlier x} later, (∀ e, ¬ fault earlier x e) →
    check earlier (x :: later) = check (earlier ++ [x]) later

theorem faultless_nil : Faultless fault [] := by
  intro earlier x later h
  simp at h

/-- Items in front of others have the same items before them. -/
theorem Faultless.of_append (h : Faultless fault (front ++ row)) : Faultless fault front := by
  rintro earlier x later rfl
  exact h earlier x (later ++ row) (by simp)

/-- A row is without faults if its last item and those before it are. -/
theorem Faultless.concat (h : Faultless fault front) (hx : ∀ e, ¬ fault front x e) :
    Faultless fault (front ++ [x]) := by
  intro earlier y later heq
  rcases List.eq_nil_or_concat later with rfl | ⟨later, z, rfl⟩
  · obtain ⟨rfl, ⟨⟩⟩ := List.append_inj' heq rfl
    exact hx
  · have hsplit : front ++ [x] = (earlier ++ y :: later) ++ [z] := by simpa using heq
    exact h earlier y later (List.append_inj' hsplit rfl).1

/-- A row without faults has no first one; every other row has. -/
theorem faultless_or_firstFault (fault : List α → α → ε → Prop) (row : List α) :
    Faultless fault row ∨ ∃ e, FirstFault fault row e := by
  induction row using List.reverseRecOn with
  | nil => exact .inl faultless_nil
  | append_singleton front x ih =>
      rcases ih with hfront | ⟨e, earlier, y, later, rfl, hearlier, hy⟩
      · by_cases hx : ∃ e, fault front x e
        · obtain ⟨e, he⟩ := hx
          exact .inr ⟨e, front, x, [], rfl, hfront, he⟩
        · exact .inl (hfront.concat (not_exists.mp hx))
      · exact .inr ⟨e, earlier, y, later ++ [x], by simp, hearlier, hy⟩

namespace ChecksInTurn

/-- The check passes over a front without faults. -/
theorem append (hcheck : ChecksInTurn fault check) (h : Faultless fault front) (row : List α) :
    check [] (front ++ row) = check front row := by
  induction front using List.reverseRecOn generalizing row with
  | nil => rfl
  | append_singleton front x ih =>
      rw [List.append_assoc, ih h.of_append]
      exact hcheck.pass row (h front x [] rfl)

/-- **The check succeeds on the rows without faults.** -/
theorem eq_ok_iff (hcheck : ChecksInTurn fault check) (row : List α) :
    check [] row = .ok () ↔ Faultless fault row := by
  constructor
  · intro h
    rcases faultless_or_firstFault fault row with hrow | ⟨e, earlier, x, later, rfl, hearlier, hx⟩
    · exact hrow
    · rw [hcheck.append hearlier, hcheck.stop later hx] at h
      cases h
  · intro h
    have := hcheck.append h []
    rwa [List.append_nil, hcheck.nil] at this

/-- **Where the check fails, it gives the first fault.** -/
theorem eq_error_iff (hcheck : ChecksInTurn fault check) (row : List α) :
    check [] row = .error e ↔ FirstFault fault row e := by
  have hfirst : ∀ {e}, FirstFault fault row e → check [] row = .error e := by
    rintro e ⟨earlier, x, later, rfl, hearlier, hx⟩
    rw [hcheck.append hearlier, hcheck.stop later hx]
  refine ⟨fun h => ?_, hfirst⟩
  rcases faultless_or_firstFault fault row with hrow | ⟨e', he'⟩
  · rw [(hcheck.eq_ok_iff row).mpr hrow] at h
    cases h
  · obtain rfl : e' = e := Except.error.inj ((hfirst he').symm.trans h)
    exact he'

end ChecksInTurn

end InTurn

/-! ### Roles -/

/-- What a special character stands for. -/
inductive Role where
  /-- A side of a pair of brackets. -/
  | bracket (kind : BracketKind) (side : BracketSide)
  /-- The end of a field specification. -/
  | fieldDelimiter
  /-- Both ends of a literal phrase. -/
  | quote
deriving DecidableEq, Repr

/-- The roles in the order in which their characters are examined. -/
def Role.all : List Role := [.bracket .group .opening, .bracket .group .closing,
  .bracket .fieldOperator .opening, .bracket .fieldOperator .closing,
  .bracket .modifier .opening, .bracket .modifier .closing, .fieldDelimiter, .quote]

/-- There are no other roles. -/
theorem Role.mem_all (role : Role) : role ∈ Role.all := by
  cases role with
  | bracket kind side => cases kind <;> cases side <;> decide
  | fieldDelimiter => decide
  | quote => decide

namespace Dialect

variable {d : Dialect} {c : Char} {e : DialectError}

/-- The character of a role. -/
def character (d : Dialect) : Role → Char
  | .bracket kind side => (d.pair kind).character side
  | .fieldDelimiter => d.fieldDelimiter
  | .quote => d.quote

/-- The special characters are those of the roles, in order. -/
theorem specials_eq_map : d.specials = Role.all.map d.character :=
  rfl

/-! ### Faults -/

/-- What is wrong with the character of a role, behind the characters of the roles `earlier`. -/
inductive RoleFault (d : Dialect) (earlier : List Role) (role : Role) : DialectError → Prop
  /-- It is white space. -/
  | blank : Text.isBlank (d.character role) = true →
      RoleFault d earlier role (.blankCharacter (d.character role))
  /-- It has an earlier role. -/
  | repeated : Text.isBlank (d.character role) = false →
      d.character role ∈ earlier.map d.character →
      RoleFault d earlier role (.repeatedCharacter (d.character role))

/-- A character that no keyword may have in it: white space, or a character with a role. -/
def Reserved (d : Dialect) (c : Char) : Prop :=
  Text.isBlank c = true ∨ ∃ role, d.character role = c

/-- What is wrong with the keyword of an operator, behind the keywords of the operators
`earlier`. -/
inductive KeywordFault (d : Dialect) (earlier : List Operator) (op : Operator) :
    DialectError → Prop
  /-- It is empty. -/
  | empty : d.keyword op = [] → KeywordFault d earlier op (.emptyKeyword op)
  /-- It has a character in it that no keyword may have. -/
  | unusable : d.keyword op ≠ [] → (∃ c ∈ d.keyword op, d.Reserved c) →
      KeywordFault d earlier op (.unusableKeyword (d.keyword op))
  /-- It belongs to an earlier operator. -/
  | repeated : d.keyword op ≠ [] → (∀ c ∈ d.keyword op, ¬ d.Reserved c) →
      d.keyword op ∈ earlier.map d.keyword →
      KeywordFault d earlier op (.repeatedKeyword (d.keyword op))

/-- The first fault of a dialect: that of the earliest role at fault, or, when no role is at
fault, that of the earliest operator whose keyword is. -/
def HasFault (d : Dialect) (e : DialectError) : Prop :=
  FirstFault d.RoleFault Role.all e ∨
    Faultless d.RoleFault Role.all ∧ FirstFault d.KeywordFault Operator.all e

/-- The characters with a role are the special ones. -/
theorem mem_specials_iff : c ∈ d.specials ↔ ∃ role, d.character role = c := by
  rw [specials_eq_map, List.mem_map]
  exact exists_congr fun role => and_iff_right role.mem_all

/-- The check of a keyword looks for reserved characters. -/
theorem reserved_iff : (Text.isBlank c || d.specials.contains c) = true ↔ d.Reserved c := by
  rw [Bool.or_eq_true, List.contains_iff_mem, mem_specials_iff, Reserved]

/-! ### The check -/

/-- The check of characters holds each role against those before it. -/
theorem checksInTurn_characters : ChecksInTurn d.RoleFault fun earlier roles =>
    checkCharacters (earlier.map d.character).reverse (roles.map d.character) where
  nil _ := rfl
  stop later h := by
    rw [List.map_cons, checkCharacters]
    cases h with
    | blank hblank => rw [if_pos hblank]
    | repeated hblank hmem =>
        rw [if_neg (by simp [hblank]), if_pos (List.mem_reverse.mpr hmem)]
  pass {earlier role} later h := by
    have hblank : Text.isBlank (d.character role) = false := by
      by_contra hblank
      exact h _ (.blank (Bool.not_eq_false _ ▸ hblank))
    have hmem : d.character role ∉ earlier.map d.character := fun hmem =>
      h _ (.repeated hblank hmem)
    rw [List.map_cons, checkCharacters, if_neg (by simp [hblank]),
      if_neg (mt List.mem_reverse.mp hmem)]
    simp

/-- The check of keywords holds each operator against those before it. -/
theorem checksInTurn_keywords : ChecksInTurn d.KeywordFault fun earlier ops =>
    d.checkKeywords (earlier.map d.keyword).reverse ops where
  nil _ := rfl
  stop later h := by
    rw [checkKeywords]
    cases h with
    | empty hempty => rw [if_pos hempty]
    | unusable hempty hreserved =>
        rw [if_neg hempty, if_pos]
        obtain ⟨c, hc, hreserved⟩ := hreserved
        exact List.any_eq_true.mpr ⟨c, hc, reserved_iff.mpr hreserved⟩
    | repeated hempty hplain hmem =>
        rw [if_neg hempty, if_neg, if_pos (List.mem_reverse.mpr hmem)]
        rw [List.any_eq_true]
        rintro ⟨c, hc, hreserved⟩
        exact hplain c hc (reserved_iff.mp hreserved)
  pass {earlier op} later h := by
    have hempty : d.keyword op ≠ [] := fun hempty => h _ (.empty hempty)
    have hplain : ∀ c ∈ d.keyword op, ¬ d.Reserved c := fun c hc hreserved =>
      h _ (.unusable hempty ⟨c, hc, hreserved⟩)
    have hmem : d.keyword op ∉ earlier.map d.keyword := fun hmem =>
      h _ (.repeated hempty hplain hmem)
    rw [checkKeywords, if_neg hempty, if_neg, if_neg (mt List.mem_reverse.mp hmem)]
    · simp
    · rw [List.any_eq_true]
      rintro ⟨c, hc, hreserved⟩
      exact hplain c hc (reserved_iff.mp hreserved)

/-- **A dialect that is refused is refused for its first fault.** -/
theorem check_eq_error_iff : d.check = .error e ↔ d.HasFault e := by
  have hchars : checkCharacters [] d.specials = .error e ↔ FirstFault d.RoleFault Role.all e :=
    checksInTurn_characters.eq_error_iff Role.all
  have hsound : checkCharacters [] d.specials = .ok () ↔ Faultless d.RoleFault Role.all :=
    checksInTurn_characters.eq_ok_iff Role.all
  have hkeywords : d.checkKeywords [] Operator.all = .error e ↔
      FirstFault d.KeywordFault Operator.all e := checksInTurn_keywords.eq_error_iff Operator.all
  rw [check, bind_eq_error_iff, hchars, HasFault, ← hsound, ← hkeywords]
  refine or_congr_right ⟨?_, ?_⟩
  · rintro ⟨_, hok, h⟩
    exact ⟨hok, h⟩
  · rintro ⟨hok, h⟩
    exact ⟨(), hok, h⟩

/-! ### The outcome of the check -/

/-- **The check accepts the sound dialects and gives the first fault of every other one.** In a
dialect that it accepts, a character is read as a side of a class of brackets exactly if it is
that side of the pair of that class. -/
theorem check_decides (d : Dialect) :
    (d.check = .ok () ↔ d.Sound) ∧ (∀ e, d.check = .error e ↔ d.HasFault e) ∧
      (d.check = .ok () → ∀ c kind side,
        d.bracket? c = some ⟨kind, side⟩ ↔ c = d.character (.bracket kind side)) :=
  ⟨check_eq_ok_iff, fun _ => check_eq_error_iff,
    fun hd _ _ _ => (check_eq_ok_iff.mp hd).bracket?_eq_some_iff⟩

/-- With angle brackets for groups, `<` is read as an opening one and `(` is free. When `(` then
opens groups and modifiers, this is the fault, whatever is wrong with the later roles. -/
theorem check_decides_angled :
    let angled := { standard with group := ⟨'<', '>'⟩ }
    let twice := { standard with modifier := ⟨'(', '}'⟩, quote := ' ' }
    (angled.check = .ok () ∧ angled.bracket? '<' = some ⟨.group, .opening⟩ ∧
      angled.bracket? '(' ≠ some ⟨.group, .opening⟩) ∧
    twice.check = .error (.repeatedCharacter '(') ∧ twice.HasFault (.repeatedCharacter '(') := by
  intro angled twice
  have hangled : angled.check = .ok () := rfl
  have hbracket := (check_decides angled).2.2 hangled
  have htwice : twice.check = .error (.repeatedCharacter '(') := rfl
  refine ⟨⟨hangled, (hbracket '<' .group .opening).mpr rfl, fun h => ?_⟩, htwice,
    ((check_decides twice).2.1 _).mp htwice⟩
  exact absurd ((hbracket '(' .group .opening).mp h) (by decide)

end Dialect

end BoolQuery
