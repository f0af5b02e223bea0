import BoolQuery.Proofs.Dialect.Sound
import BoolQuery.Query.Canonical
import BoolQuery.Token.Field

/-!
# Well-Formed Field Specifications

A field specification is read from a text exactly if the text is its written form and none of
its parts is empty or holds a bracket. Reading a specification and writing it back therefore
gives the same text again.

## Main definitions

* `FieldSpec.text`: the written form.
* `FieldSpec.IsPart`: what can be a part.
* `FieldSpec.WellFormed`: all parts that are there can be parts.

## Main results

* `FieldSpec.ofText?_eq_some_iff`: reading inverts writing.
-/

namespace BoolQuery

open Dialect

namespace FieldSpec

variable {d : Dialect} {p : BracketPair} {t part rest : Text}
  {f : FieldSpec}

/-- The written form of a specification. -/
def text (d : Dialect) (f : FieldSpec) : Text :=
  f.name ++ (Term.canonicalSection d.modifier f.modifier
    ++ Term.canonicalSection d.fieldOperator f.operator)

/-- A text that can be a part of a specification: it is not empty and has no brackets. -/
def IsPart (d : Dialect) (part : Text) : Prop :=
  part ≠ [] ∧ ∀ c ∈ part, d.isFieldBracket c = false

/-- Every part that is there can be one. -/
structure WellFormed (d : Dialect) (f : FieldSpec) : Prop where
  /-- The name. -/
  name : IsPart d f.name
  /-- The modifier. -/
  modifier : ∀ part ∈ f.modifier, IsPart d part
  /-- The operator. -/
  operator : ∀ part ∈ f.operator, IsPart d part

/-- A part is what stands in front of the next bracket. -/
theorem part?_eq_some_iff : part? d t = some (part, rest) ↔
    IsPart d part ∧ t = part ++ rest ∧ rest.head?.all d.isFieldBracket = true := by
  rw [part?]
  constructor
  · intro h
    split at h
    · cases h
    · next hne =>
      obtain ⟨rfl, rfl⟩ := Prod.mk.inj (Option.some.inj h)
      refine ⟨⟨hne, fun c hc => ?_⟩, List.takeWhile_append_dropWhile.symm, ?_⟩
      · simpa using List.mem_takeWhile_imp hc
      · have := List.head?_dropWhile_not (fun c => !d.isFieldBracket c) t
        cases hhead : (t.dropWhile fun c => !d.isFieldBracket c).head? with
        | none => rfl
        | some c => simpa [hhead] using this
  · rintro ⟨⟨hne, hpart⟩, rfl, hrest⟩
    have hall : ∀ c ∈ part, (!d.isFieldBracket c) = true := by simpa using hpart
    have hstop : rest.takeWhile (fun c => !d.isFieldBracket c) = [] ∧
        rest.dropWhile (fun c => !d.isFieldBracket c) = rest := by
      cases rest with
      | nil => exact ⟨rfl, rfl⟩
      | cons c rest =>
          have hc : d.isFieldBracket c = true := by simpa using hrest
          simp [hc]
    rw [List.takeWhile_append_of_pos hall, List.dropWhile_append_of_pos hall, hstop.1, hstop.2,
      List.append_nil]
    cases part with
    | nil => exact absurd rfl hne
    | cons c part => rfl

/-- A bracketed part is there exactly when the text begins with the opening bracket. -/
theorem section?_eq_some_iff (hclosing : d.isFieldBracket p.closing = true)
    {m : Option Text} : section? d p t = some (m, rest) ↔
      (∀ part ∈ m, IsPart d part) ∧ t = Term.canonicalSection p m ++ rest ∧
        (m = none → rest.head? ≠ some p.opening) := by
  constructor
  · intro h
    cases t with
    | nil =>
        obtain ⟨rfl, rfl⟩ := Prod.mk.inj (Option.some.inj h)
        simp [Term.canonicalSection]
    | cons c t =>
        rw [section?] at h
        split at h
        · next hc =>
          subst hc
          split at h
          · next part e after hpart =>
            split at h
            · next he =>
              obtain ⟨rfl, rfl⟩ := Prod.mk.inj (Option.some.inj h)
              obtain ⟨his, rfl, -⟩ := part?_eq_some_iff.mp hpart
              simp [Term.canonicalSection, his, he]
            · cases h
          · cases h
        · next hc =>
          obtain ⟨rfl, rfl⟩ := Prod.mk.inj (Option.some.inj h)
          simpa [Term.canonicalSection] using hc
  · rintro ⟨hpart, rfl, hrest⟩
    cases m with
    | none =>
        cases rest with
        | nil => rfl
        | cons c rest =>
            have hc : c ≠ p.opening := by simpa using hrest rfl
            simp [Term.canonicalSection, section?, hc]
    | some part =>
        have hread : part? d (part ++ p.closing :: rest) = some (part, p.closing :: rest) :=
          part?_eq_some_iff.mpr ⟨hpart part rfl, rfl, by simpa using hclosing⟩
        simp [Term.canonicalSection, section?, hread]

/-- **Reading a specification inverts writing it.** -/
theorem ofText?_eq_some_iff (hd : d.Sound) :
    ofText? d t = some f ↔ t = f.text d ∧ f.WellFormed d := by
  have hmodifier : d.isFieldBracket d.modifier.closing = true := by simp [isFieldBracket]
  have hoperator : d.isFieldBracket d.fieldOperator.closing = true := by simp [isFieldBracket]
  constructor
  · intro h
    rw [ofText?] at h
    split at h
    · cases h
    · next name r hname =>
      split at h
      · cases h
      · next m r' hm =>
        split at h
        · next o ho =>
          obtain rfl := Option.some.inj h
          obtain ⟨hpart, rfl, -⟩ := part?_eq_some_iff.mp hname
          obtain ⟨hpart', rfl, -⟩ := (section?_eq_some_iff hmodifier).mp hm
          obtain ⟨hpart'', rfl, -⟩ := (section?_eq_some_iff hoperator).mp ho
          exact ⟨by simp [text], hpart, hpart', hpart''⟩
        · cases h
  · rintro ⟨rfl, hname, hm, ho⟩
    have hdistinct : d.fieldOperator.opening ≠ d.modifier.opening := by
      have := hd.nodup
      simp only [specials, List.nodup_cons, List.mem_cons, not_or] at this
      grind
    have hread : part? d (f.text d) = some (f.name, Term.canonicalSection d.modifier f.modifier
        ++ Term.canonicalSection d.fieldOperator f.operator) := by
      refine part?_eq_some_iff.mpr ⟨hname, rfl, ?_⟩
      cases f.modifier <;> cases f.operator <;> simp [Term.canonicalSection, isFieldBracket]
    have hread' : section? d d.modifier (Term.canonicalSection d.modifier f.modifier
        ++ Term.canonicalSection d.fieldOperator f.operator)
        = some (f.modifier, Term.canonicalSection d.fieldOperator f.operator) := by
      refine (section?_eq_some_iff hmodifier).mpr ⟨hm, rfl, fun _ => ?_⟩
      cases f.operator <;> simp [Term.canonicalSection, hdistinct]
    have hread'' : section? d d.fieldOperator (Term.canonicalSection d.fieldOperator f.operator)
        = some (f.operator, []) :=
      (section?_eq_some_iff hoperator).mpr ⟨ho, by simp, by simp⟩
    rw [ofText?, hread]
    simp only [hread', hread'']

end FieldSpec

end BoolQuery
