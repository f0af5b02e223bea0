import BoolQuery.Proofs.Token.Field

/-!
# Field Specifications From Either End

A field specification is a name, then maybe a modifier in its brackets, then maybe an operator in
its brackets. It can be read from the front, part by part, or from the rear: a text that ends in a
closing bracket is cut at the last opening one, first for the operator and then for the modifier,
and only what is left in the end is held against the rules for parts. The second way looks at no
bracket in between, so it depends on the rules for parts to refuse brackets out of place. In a
sound dialect both ways accept the same texts and find the same parts in them.

## Main definitions

* `Text.cutLast?`: a text cut at the last place of a character.
* `FieldSpec.dropSection?`: a text without the bracketed part it ends in.
* `FieldSpec.ofRear?`: reads a specification from the rear.

## Main results

* `FieldSpec.ofRear?_eq_some_iff`: reading from the rear inverts writing.
* `FieldSpec.WellFormed.filter_text`: the brackets in a written specification.
* `FieldSpec.ofText?_decides_grammar`: both ways read exactly the written specifications.
-/

namespace BoolQuery

open Dialect

namespace Text

/-- A text cut at the last place of a character: what stands before it, and what behind it. -/
def cutLast? (mark : Char) : Text → Option (Text × Text)
  | [] => none
  | c :: t =>
    match cutLast? mark t with
    | some (before, after) => some (c :: before, after)
    | none => if c = mark then some ([], t) else none

variable {mark : Char} {t before after : Text}

/-- A text is not cut when the character does not stand in it. -/
theorem cutLast?_eq_none_iff : cutLast? mark t = none ↔ mark ∉ t := by
  induction t with
  | nil => simp [cutLast?]
  | cons c t ih =>
      rw [cutLast?]
      cases hcut : cutLast? mark t with
      | some cut =>
          have hmem : mark ∈ t := by_contra fun hnot => by simp [ih.mpr hnot] at hcut
          simp [hmem]
      | none => simp [ih.mp hcut, eq_comm]

/-- A text is cut where the character does not stand behind. -/
theorem cutLast?_append (hafter : mark ∉ after) (before : Text) :
    cutLast? mark (before ++ mark :: after) = some (before, after) := by
  induction before with
  | nil => rw [List.nil_append, cutLast?, cutLast?_eq_none_iff.mpr hafter, if_pos rfl]
  | cons c before ih => rw [List.cons_append, cutLast?, ih]

/-- **A text is cut at the last place of the character**: it does not stand behind it. -/
theorem cutLast?_eq_some_iff :
    cutLast? mark t = some (before, after) ↔ t = before ++ mark :: after ∧ mark ∉ after := by
  refine ⟨fun h => ?_, fun ⟨heq, hafter⟩ => heq ▸ cutLast?_append hafter before⟩
  induction t generalizing before with
  | nil => cases h
  | cons c t ih =>
      rw [cutLast?] at h
      split at h
      · next front rear hcut =>
        obtain ⟨rfl, rfl⟩ := Prod.mk.inj (Option.some.inj h)
        obtain ⟨rfl, hrear⟩ := ih hcut
        exact ⟨rfl, hrear⟩
      · next hcut =>
        split at h
        · next hc =>
          obtain ⟨rfl, rfl⟩ := Prod.mk.inj (Option.some.inj h)
          exact ⟨by rw [hc, List.nil_append], cutLast?_eq_none_iff.mp hcut⟩
        · cases h

end Text

namespace FieldSpec

variable {d : Dialect} {p : BracketPair} {t head part : Text} {f : FieldSpec} {m : Option Text}

instance : DecidablePred (IsPart d) := fun part =>
  decidable_of_iff (part ≠ [] ∧ part.all (fun c => !d.isFieldBracket c) = true)
    (and_congr_right fun _ => by simp)

/-- Takes the bracketed part off the end of a text that ends in the closing bracket of `p`: it
begins behind the last opening bracket. Another text has no such part. -/
def dropSection? (p : BracketPair) (t : Text) : Option (Text × Option Text) :=
  if t.getLast? = some p.closing then
    match Text.cutLast? p.opening t.dropLast with
    | some (head, part) => some (head, some part)
    | none => none
  else some (t, none)

/-- Reads a field specification that makes up the whole of `t`, from the rear. -/
def ofRear? (d : Dialect) (t : Text) : Option FieldSpec :=
  match dropSection? d.fieldOperator t with
  | none => none
  | some (rest, operator) =>
    match dropSection? d.modifier rest with
    | none => none
    | some (name, modifier) =>
      if IsPart d name ∧ (∀ part ∈ operator, IsPart d part) ∧ ∀ part ∈ modifier, IsPart d part then
        some { name, operator, modifier }
      else none

/-! ### Reading from the rear -/

/-- What is taken off the end is a bracketed part without an opening bracket in it. -/
theorem dropSection?_eq_some_iff : dropSection? p t = some (head, m) ↔
    t = head ++ Term.canonicalSection p m ∧ (∀ part ∈ m, p.opening ∉ part) ∧
      (m = none → t.getLast? ≠ some p.closing) := by
  rw [dropSection?]
  split
  · next hlast =>
    obtain ⟨inner, rfl⟩ := List.getLast?_eq_some_iff.mp hlast
    rw [List.dropLast_concat]
    cases m with
    | none =>
        simp only [List.getLast?_concat, ne_eq, not_true_eq_false, forall_const, and_false,
          iff_false]
        split <;> simp
    | some part =>
        have hcut : Text.cutLast? p.opening inner = some (head, part) ↔
            inner ++ [p.closing] = head ++ Term.canonicalSection p (some part) ∧
              p.opening ∉ part := by
          rw [Text.cutLast?_eq_some_iff, Term.canonicalSection, ← List.cons_append,
            ← List.append_assoc, List.append_left_inj]
        simp only [Option.mem_some_iff, forall_eq', reduceCtorEq, false_implies, and_true, ← hcut]
        cases Text.cutLast? p.opening inner with
        | none => simp
        | some cut => simp [Prod.ext_iff]
  · next hlast =>
    cases m with
    | none => simp [Term.canonicalSection, hlast]
    | some part =>
        refine iff_of_false (by simp) fun h => hlast ?_
        rw [h.1, Term.canonicalSection, ← List.cons_append, ← List.append_assoc,
          List.getLast?_concat]

/-- A part has no bracket in it. -/
theorem IsPart.notMem {c : Char} (h : IsPart d part) (hc : d.isFieldBracket c = true) :
    c ∉ part := by
  intro hmem
  have := h.2 c hmem
  rw [hc] at this
  cases this

/-- A part ends in no bracket. -/
theorem IsPart.getLast?_ne {c : Char} (h : IsPart d part) (hc : d.isFieldBracket c = true) :
    part.getLast? ≠ some c :=
  fun hlast => h.notMem hc (List.mem_of_getLast? hlast)

/-- **Reading a specification from the rear inverts writing it.** -/
theorem ofRear?_eq_some_iff (hd : d.Sound) :
    ofRear? d t = some f ↔ t = f.text d ∧ f.WellFormed d := by
  constructor
  · intro h
    rw [ofRear?] at h
    split at h
    · cases h
    · next rest operator hoperator =>
      split at h
      · cases h
      · next name modifier hmodifier =>
        split at h
        · next hparts =>
          obtain rfl := Option.some.inj h
          obtain ⟨rfl, -, -⟩ := dropSection?_eq_some_iff.mp hoperator
          obtain ⟨rfl, -, -⟩ := dropSection?_eq_some_iff.mp hmodifier
          exact ⟨List.append_assoc .., hparts.1, hparts.2.2, hparts.2.1⟩
        · cases h
  · rintro ⟨rfl, hname, hm, ho⟩
    have hne : d.modifier.closing ≠ d.fieldOperator.closing := by
      have := hd.nodup
      simp only [specials, List.nodup_cons, List.mem_cons, not_or] at this
      grind
    have hmodifier : dropSection? d.modifier
        (f.name ++ Term.canonicalSection d.modifier f.modifier) = some (f.name, f.modifier) := by
      refine dropSection?_eq_some_iff.mpr
        ⟨rfl, fun part hpart => (hm part hpart).notMem (by simp [isFieldBracket]), fun hnone => ?_⟩
      rw [hnone, Term.canonicalSection, List.append_nil]
      exact hname.getLast?_ne (by simp [isFieldBracket])
    have hoperator : dropSection? d.fieldOperator (f.text d)
        = some (f.name ++ Term.canonicalSection d.modifier f.modifier, f.operator) := by
      refine dropSection?_eq_some_iff.mpr ⟨(List.append_assoc ..).symm,
        fun part hpart => (ho part hpart).notMem (by simp [isFieldBracket]), fun hnone => ?_⟩
      rw [text, hnone]
      cases f.modifier with
      | none =>
          simp only [Term.canonicalSection, List.append_nil]
          exact hname.getLast?_ne (by simp [isFieldBracket])
      | some part =>
          simp only [Term.canonicalSection, List.append_nil]
          rw [← List.cons_append, ← List.append_assoc, List.getLast?_concat]
          simpa using hne
    rw [ofRear?, hoperator]
    simp only [hmodifier]
    exact if_pos ⟨hname, ho, hm⟩

/-! ### The brackets of a specification -/

/-- The brackets around a part that may be absent. -/
def sectionBrackets (p : BracketPair) (present : Bool) : List Char :=
  if present then [p.opening, p.closing] else []

/-- The brackets in a bracketed part are those around it. -/
theorem filter_canonicalSection (hopening : d.isFieldBracket p.opening = true)
    (hclosing : d.isFieldBracket p.closing = true) (hm : ∀ part ∈ m, IsPart d part) :
    (Term.canonicalSection p m).filter d.isFieldBracket = sectionBrackets p m.isSome := by
  cases m with
  | none => rfl
  | some part =>
      have hpart : part.filter d.isFieldBracket = [] := by simpa using (hm part rfl).2
      simp [Term.canonicalSection, sectionBrackets, hopening, hclosing, hpart]

/-- **The brackets in a written specification** are those around its modifier and then those
around its operator. -/
theorem WellFormed.filter_text (h : f.WellFormed d) : (f.text d).filter d.isFieldBracket =
    sectionBrackets d.modifier f.modifier.isSome
      ++ sectionBrackets d.fieldOperator f.operator.isSome := by
  have hname : f.name.filter d.isFieldBracket = [] := by simpa using h.name.2
  rw [text, List.filter_append, List.filter_append, hname, List.nil_append,
    filter_canonicalSection (by simp [isFieldBracket]) (by simp [isFieldBracket]) h.modifier,
    filter_canonicalSection (by simp [isFieldBracket]) (by simp [isFieldBracket]) h.operator]

/-! ### Both ways -/

/-- **The grammar of field specifications.** A specification is read from a text exactly if the
text is a name, then maybe a modifier in its brackets, then maybe an operator in its brackets, and
none of these parts is empty or has one of the four brackets in it. A text is made up in this way
in at most one manner, and one that is not is refused. Reading from the rear gives the same. So a
text is refused when its brackets, in their order, are not those of a modifier or an operator or
one of each. -/
theorem ofText?_decides_grammar (hcheck : d.check = .ok ()) (t : Text) :
    (∀ f, ofText? d t = some f ↔ t = f.text d ∧ f.WellFormed d) ∧
    (∀ f g : FieldSpec, t = f.text d ∧ f.WellFormed d → t = g.text d ∧ g.WellFormed d → f = g) ∧
    (ofText? d t = none ↔ ∀ f : FieldSpec, f.WellFormed d → t ≠ f.text d) ∧
    ofRear? d t = ofText? d t ∧
    ((∀ hasModifier hasOperator, t.filter d.isFieldBracket ≠
        sectionBrackets d.modifier hasModifier ++ sectionBrackets d.fieldOperator hasOperator) →
      ofText? d t = none) := by
  have hd := check_eq_ok_iff.mp hcheck
  have hnone : ofText? d t = none ↔ ∀ f : FieldSpec, f.WellFormed d → t ≠ f.text d := by
    rw [Option.eq_none_iff_forall_ne_some]
    exact forall_congr' fun f => by rw [ne_eq, ofText?_eq_some_iff hd]; tauto
  refine ⟨fun f => ofText?_eq_some_iff hd, fun f g hf hg => ?_, hnone, Option.ext fun f => ?_,
    fun hbrackets => hnone.mpr ?_⟩
  · exact Option.some.inj
      (((ofText?_eq_some_iff hd).mpr hf).symm.trans ((ofText?_eq_some_iff hd).mpr hg))
  · rw [ofRear?_eq_some_iff hd, ofText?_eq_some_iff hd]
  · rintro f hf rfl
    exact hbrackets _ _ hf.filter_text

/-- The standard dialect with brackets of several bytes around modifiers and operators. -/
def wideBrackets : Dialect :=
  { Dialect.standard with modifier := ⟨'«', '»'⟩, fieldOperator := ⟨'⟦', '⟧'⟩ }

/-- With such brackets a modifier may stand in front of an operator, but not behind it, and there
is no part inside another. -/
theorem ofText?_decides_grammar_wide :
    wideBrackets.check = .ok () ∧
    ofText? wideBrackets "é«ü»⟦x⟧".toList
      = some { name := "é".toList, operator := some "x".toList, modifier := some "ü".toList } ∧
    ofRear? wideBrackets "é⟦x⟧«ü»".toList = none ∧
    ofText? wideBrackets "é⟦x«ü»⟧".toList = none := by
  have hcheck : wideBrackets.check = .ok () := by decide +kernel
  obtain ⟨hread, -, -, -, -⟩ := ofText?_decides_grammar hcheck "é«ü»⟦x⟧".toList
  obtain ⟨-, -, -, hrear, hswapped⟩ := ofText?_decides_grammar hcheck "é⟦x⟧«ü»".toList
  obtain ⟨-, -, -, -, hnested⟩ := ofText?_decides_grammar hcheck "é⟦x«ü»⟧".toList
  refine ⟨hcheck, (hread _).mpr ⟨rfl, ?_, ?_, ?_⟩, hrear.trans (hswapped ?_), hnested ?_⟩
    <;> decide +kernel

end FieldSpec

end BoolQuery
