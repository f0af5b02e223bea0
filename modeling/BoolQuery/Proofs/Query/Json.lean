import BoolQuery.Proofs.Text.Legible
import BoolQuery.Query.Json

/-!
# Queries Are Told Apart by Their JSON

The JSON form of a query loses nothing, in either layout. Escapes are read back, so strings are
legible up to their closing quotation mark; a term is a row of members of which all but the first
may be missing, and what comes behind a member is a comma or the end of the object; a node has
one member, whose name tells its kind. So trees are legible by structure, whatever their texts
hold, and a query without a tree is told from all others by its first letter.

## Main results

* `Json.legible_string`, `Term.legible_json`, `Node.legible_json`: strings, terms and trees are
  legible.
* `Query.json_eq_iff`: queries with the same JSON are the same.
-/

namespace BoolQuery

variable {l : Json.Layout} {level : Nat}

namespace Json

variable {c : Char} {t name name' : Text} {r s : Text} {v w : Writer}

/-! ### Strings -/

/-- Reads a character back that has been written in a string. -/
def readEscape? : Text → Option (Char × Text) :=
  Text.readEscape? [('b', '\x08'), ('f', '\x0c'), ('n', '\n'), ('r', '\r'), ('t', '\t')]
    fun t => some (Char.ofNat (Text.hexValue (t.take 4)), t.drop 4)

/-- **Escapes are read back.** -/
theorem readEscape?_escape (c : Char) (rest : Text) :
    readEscape? (escape c ++ rest) = some (c, rest) := by
  rw [escape]
  split
  · next h => rcases h with rfl | rfl <;> rfl
  split
  · next h => subst h; rfl
  split
  · next h => subst h; rfl
  split
  · next h => subst h; rfl
  split
  · next h => subst h; rfl
  split
  · next h => subst h; rfl
  split
  · next hcontrol =>
    have hvalue : Text.hexValue ['0', '0', Nat.digitChar (c.toNat / 16),
        Nat.digitChar (c.toNat % 16)] = c.toNat := by
      have hzero : Text.hexDigit '0' = 0 := rfl
      simp only [Text.hexValue, List.foldl_cons, List.foldl_nil, hzero,
        Text.hexDigit_digitChar _ (show c.toNat / 16 < 16 by omega),
        Text.hexDigit_digitChar _ (show c.toNat % 16 < 16 by omega)]
      omega
    have hread : readEscape? (['\\', 'u', '0', '0', Nat.digitChar (c.toNat / 16),
        Nat.digitChar (c.toNat % 16)] ++ rest) = some (Char.ofNat (Text.hexValue ['0', '0',
          Nat.digitChar (c.toNat / 16), Nat.digitChar (c.toNat % 16)]), rest) := rfl
    rw [hread, hvalue, Char.ofNat_toNat]
  · next hmark _ _ _ _ _ _ => exact Text.readEscape?_self (fun h => hmark (.inr h)) rest

/-- A string is written by its escapes between two marks. -/
theorem string_eq (t rest : Text) : string t rest = '"' :: (t.flatMap escape ++ '"' :: rest) := by
  rw [string]
  induction t with
  | nil => rfl
  | cons c t ih =>
      rw [List.foldr_cons, List.flatMap_cons, List.append_assoc, (List.cons.inj ih).2]

/-- **Strings are legible.** -/
theorem legible_string : Legible string := by
  intro t u r s h
  rw [string_eq, string_eq] at h
  exact Text.legible_escaped readEscape?_escape (by decide) rfl (List.cons.inj h).2

/-! ### Objects -/

/-- What closes an object. -/
def closeObject (l : Layout) (level : Nat) : Writer := fun rest =>
  l.lineBreak level ++ '}' :: rest

theorem closeObject_injective : Function.Injective (closeObject l level) := by
  intro r s h
  exact (List.cons.inj (List.append_cancel_left h)).2

/-- A comma does not close an object. -/
theorem comma_ne_closeObject (r s : Text) : ',' :: r ≠ closeObject l level s := by
  cases l <;> simp [closeObject, Layout.lineBreak]

/-- A member is its name, a colon, and its value. -/
theorem member_inj (h : member l name v r = member l name' w s) : name = name' ∧ v r = w s := by
  obtain ⟨rfl, hvalue⟩ := legible_string h
  exact ⟨rfl, List.append_cancel_left hvalue⟩

/-- An object with one member is told by the name of the member and what follows it. -/
theorem object_singleton_inj (h : object l level [(name, v)] r = object l level [(name', w)] s) :
    name = name' ∧ v (closeObject l level r) = w (closeObject l level s) :=
  member_inj (List.append_cancel_left (List.cons.inj h).2)

/-- An array of two values is the one value and the other. -/
theorem array_pair_eq (rest : Text) : array l level [v, w] rest =
    '[' :: (l.lineBreak (level + 1) ++ v (',' :: (l.lineBreak (level + 1) ++
      w (l.lineBreak level ++ ']' :: rest)))) := by
  simp [array, enclosed, items]

/-- An array of two values of one kind is told by the values and what follows it, if these can be
taken off again. -/
theorem array_pair_inj {α : Type} (write : α → Writer) {a b a' b' : α}
    (ha : ∀ {r s}, write a r = write a' s → a = a' ∧ r = s)
    (hb : ∀ {r s}, write b r = write b' s → b = b' ∧ r = s)
    (h : array l level [write a, write b] r = array l level [write a', write b'] s) :
    a = a' ∧ b = b' ∧ r = s := by
  rw [array_pair_eq, array_pair_eq] at h
  obtain ⟨rfl, hsecond⟩ := ha (List.append_cancel_left (List.cons.inj h).2)
  obtain ⟨rfl, hend⟩ := hb (List.append_cancel_left (List.cons.inj hsecond).2)
  exact ⟨rfl, rfl, (List.cons.inj (List.append_cancel_left hend)).2⟩

/-- A further member of an object, with a text for its value. -/
def furtherMember (l : Layout) (level : Nat) (m : Text × Text) : Writer := fun rest =>
  ',' :: (l.lineBreak (level + 1) ++ member l m.1 (string m.2) rest)

/-- Further members are legible. -/
theorem legible_furtherMember : Legible (furtherMember l level) := by
  intro m m' r s h
  obtain ⟨hname, hvalue⟩ := member_inj (List.append_cancel_left (List.cons.inj h).2)
  obtain ⟨htext, rfl⟩ := legible_string hvalue
  exact ⟨Prod.ext hname htext, rfl⟩

end Json

/-! ### Terms and trees -/

/-- The members of a term behind its value. -/
def Term.metadata (t : Term) : List (Text × Option Text) :=
  [("field".toList, t.field), ("operator".toList, t.operator), ("modifier".toList, t.modifier)]

/-- A term is an object with its value and, behind it, the metadata that it has. -/
theorem Term.json_eq (t : Term) (rest : Text) : t.json l level rest =
    '{' :: (l.lineBreak (level + 1) ++ Json.member l "value".toList (Json.string t.value)
      (writeParts (Json.furtherMember l level) (Json.closeObject l level) t.metadata rest)) := by
  obtain ⟨value, field, operator, modifier⟩ := t
  cases field <;> cases operator <;> cases modifier <;>
    simp [json, Json.object, Json.enclosed, Json.items, Json.member, Json.furtherMember,
      Json.closeObject, metadata, writeParts]

/-- **Terms are legible.** -/
theorem Term.legible_json (l : Json.Layout) (level : Nat) : Legible (Term.json l level) := by
  intro t u r s h
  rw [Term.json_eq, Term.json_eq] at h
  obtain ⟨-, h⟩ := Json.member_inj (List.append_cancel_left (List.cons.inj h).2)
  obtain ⟨hvalue, h⟩ := Json.legible_string h
  obtain ⟨hmetadata, rfl⟩ := writeParts_inj Json.legible_furtherMember
    (fun _ _ _ => Json.comma_ne_closeObject _ _) Json.closeObject_injective
    (by simp [metadata]) (by simp only [metadata, List.map_cons, List.map_nil]; decide) h
  obtain ⟨value, field, operator, modifier⟩ := t
  obtain ⟨value', field', operator', modifier'⟩ := u
  simp_all [metadata]

/-- **Trees are legible.** -/
theorem Node.legible_json (l : Json.Layout) (level : Nat) : Legible (Node.json l level) := by
  intro n m r s h
  induction n generalizing level m r s with
  | term t =>
      cases m with
      | term u =>
          obtain ⟨rfl, hend⟩ := Term.legible_json l _ (Json.object_singleton_inj h).2
          exact ⟨rfl, Json.closeObject_injective hend⟩
      | _ => exact absurd (Json.object_singleton_inj h).1 (by decide)
  | not child ih =>
      cases m with
      | not child' =>
          obtain ⟨rfl, hend⟩ := ih _ (Json.object_singleton_inj h).2
          exact ⟨rfl, Json.closeObject_injective hend⟩
      | _ => exact absurd (Json.object_singleton_inj h).1 (by decide)
  | and left right ihl ihr =>
      cases m with
      | and left' right' =>
          obtain ⟨rfl, rfl, hend⟩ := Json.array_pair_inj (Node.json l (level + 2))
            (fun h => ihl _ h) (fun h => ihr _ h) (Json.object_singleton_inj h).2
          exact ⟨rfl, Json.closeObject_injective hend⟩
      | _ => exact absurd (Json.object_singleton_inj h).1 (by decide)
  | or left right ihl ihr =>
      cases m with
      | or left' right' =>
          obtain ⟨rfl, rfl, hend⟩ := Json.array_pair_inj (Node.json l (level + 2))
            (fun h => ihl _ h) (fun h => ihr _ h) (Json.object_singleton_inj h).2
          exact ⟨rfl, Json.closeObject_injective hend⟩
      | _ => exact absurd (Json.object_singleton_inj h).1 (by decide)

/-- A tree is an object and not `null`. -/
theorem Node.json_ne_null (n : Node) (rest : Text) : n.json l level rest ≠ "null".toList := by
  cases n <;> exact fun h => nomatch (List.cons.inj h).1

/-- **Queries with the same JSON are the same**, in each layout. -/
theorem Query.json_eq_iff (l : Json.Layout) (q q' : Query) : q.json l = q'.json l ↔ q = q' := by
  refine ⟨fun h => ?_, congrArg (Query.json l)⟩
  obtain ⟨root⟩ := q
  obtain ⟨root'⟩ := q'
  cases root with
  | none =>
      cases root' with
      | none => rfl
      | some m => exact absurd h.symm (m.json_ne_null [])
  | some n =>
      cases root' with
      | none => exact absurd h (n.json_ne_null [])
      | some m =>
          obtain ⟨rfl, -⟩ := Node.legible_json l 0 h
          rfl

end BoolQuery
