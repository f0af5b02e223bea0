import BoolQuery.Proofs.Query.RoundTrip

/-!
# Trees Built by Hand

The canonical text of a tree is read as the tree again also when the tree has not come from
reading, as long as its texts are **clean**: no value has the quote in it, and field names,
operators and modifiers are made of characters that have no meaning in the dialect. A keyword
among such texts does no harm, because in a field specification it is followed by a bracket or
by the field delimiter, and as a value it stands in quotes.

Cleanness is a matter of the dialect in which a tree is written, not of the one in which it was
read, so a clean tree can be carried from one dialect to another.

## Main definitions

* `Dialect.IsName`: a text without characters that have a meaning; `FieldSpec.Named`, a
  specification made of such texts.
* `Term.Clean`, `Term.Anchored`: what is asked of the terms of a tree.

## Main results

* `FieldSpec.Named.writable`, `Term.Clean.writable`: clean specifications and terms can be
  written.
* `parse_canonical_of_clean`: clean trees are read back.
* `canonical_faithful`: so they have different texts, and can be carried over.
-/

namespace BoolQuery

open Dialect

variable {d : Dialect} {f : FieldSpec} {t : Term} {n : Node} {c : Char} {part : Text}

/-- A text that is not empty and has neither white space nor special characters. -/
def Dialect.IsName (d : Dialect) (part : Text) : Prop :=
  part ≠ [] ∧ ∀ c ∈ part, Text.isBlank c = false ∧ c ∉ d.specials

-- the instance for all characters of a list, and not one that goes through all characters
instance (d : Dialect) (part : Text) : Decidable (d.IsName part) :=
  @instDecidableAnd _ _ _ (List.decidableBAll _ part)

/-! ### Specifications made of names -/

namespace FieldSpec

/-- The characters of a written specification are those of its parts and the brackets. -/
theorem mem_text (h : c ∈ f.text d) :
    c ∈ f.name ∨ (∃ part ∈ f.modifier, c ∈ part) ∨ (∃ part ∈ f.operator, c ∈ part) ∨
      d.isFieldBracket c = true := by
  obtain ⟨name, operator, modifier⟩ := f
  cases modifier <;> cases operator <;>
    simp only [text, Term.canonicalSection, List.mem_append, List.mem_cons, List.not_mem_nil,
      or_false] at h <;>
    simp only [isFieldBracket, Option.mem_def, Option.some.injEq, exists_eq_left',
      Bool.or_eq_true, decide_eq_true_eq] <;>
    tauto

/-- Every part that is there is a name. -/
structure Named (d : Dialect) (f : FieldSpec) : Prop where
  /-- The name of the field. -/
  name : d.IsName f.name
  /-- The modifier. -/
  modifier : ∀ part ∈ f.modifier, d.IsName part
  /-- The operator. -/
  operator : ∀ part ∈ f.operator, d.IsName part

/-- A name has no bracket in it. -/
theorem isPart_of_isName (h : d.IsName part) : IsPart d part := by
  refine ⟨h.1, fun c hc => ?_⟩
  have := (h.2 c hc).2
  simp only [specials, List.mem_cons, not_or] at this
  simp [isFieldBracket, this]

/-- No character of a specification made of names ends a word or is the field delimiter. -/
theorem Named.endsWord_of_mem_text (hd : d.Sound) (h : f.Named d) (hc : c ∈ f.text d) :
    d.endsWord c = false ∧ c ≠ d.fieldDelimiter := by
  have hnamed : ∀ part, d.IsName part → c ∈ part → d.endsWord c = false ∧ c ≠ d.fieldDelimiter := by
    intro part hpart hmem
    obtain ⟨hblank, hspecial⟩ := hpart.2 c hmem
    simp only [specials, List.mem_cons, not_or] at hspecial
    simp [endsWord, isGrouping, hblank, hspecial]
  rcases mem_text hc with hmem | ⟨part, hpart, hmem⟩ | ⟨part, hpart, hmem⟩ | hbracket
  · exact hnamed _ h.name hmem
  · exact hnamed part (h.modifier part hpart) hmem
  · exact hnamed part (h.operator part hpart) hmem
  · have hnodup := hd.nodup
    have hblank := hd.isBlank_special
    simp only [specials, List.nodup_cons, List.mem_cons, not_or] at hnodup hblank
    simp only [isFieldBracket, Bool.or_eq_true, decide_eq_true_eq] at hbracket
    rw [endsWord_eq_false_iff]
    simp only [isGrouping, Bool.or_eq_false_iff, decide_eq_false_iff_not]
    grind

/-- **A specification made of names can be written anywhere.** A keyword in it is not a word:
it is followed by another character of a word, by a bracket, or by the field delimiter. -/
theorem Named.writable (hd : d.Sound) (h : f.Named d) : f.Writable d := by
  have hchars : ∀ c ∈ f.text d, d.endsWord c = false ∧ c ≠ d.fieldDelimiter := fun c hc =>
    h.endsWord_of_mem_text hd hc
  have hword : ∀ c ∈ f.text d, Text.isBlank c = false ∧ d.isGrouping c = false ∧ c ≠ d.quote :=
    fun c hc => endsWord_eq_false_iff.mp (hchars c hc).1
  have hne : f.text d ≠ [] := by
    rw [text]
    exact List.append_ne_nil_of_left_ne_nil h.name.1 _
  refine ⟨⟨isPart_of_isName h.name, fun part hpart => isPart_of_isName (h.modifier part hpart),
    fun part hpart => isPart_of_isName (h.operator part hpart)⟩, ?_,
    fun hc => (hword _ hc).2.2 rfl, fun hc => (hchars _ hc).2 rfl,
    fun c hc => (hword c hc).2.1, ?_⟩
  · exact Text.trim_eq_self (hword _ (List.head_mem hne)).1 (List.head?_eq_some_head hne)
      (hword _ (List.getLast_mem hne)).1 (List.getLast?_eq_some_getLast hne)
  · intro before after hout
    refine plain_append_iff.mpr ⟨?_, plain_cons_iff.mpr ⟨hd.noMark_fieldDelimiter, plain_nil⟩⟩
    rintro x c y heq
    refine hd.noMark_cons_iff.mpr fun _ => ⟨(hword c (by simp [heq])).2.1, fun _ => ?_⟩
    by_contra hkey
    obtain ⟨⟨op, rest⟩, hop⟩ := Option.ne_none_iff_exists'.mp hkey
    -- the character behind the keyword would end a word
    obtain ⟨more, hmore, hne, hend⟩ := hd.keywordAt?_fieldDelimiter (t := c :: y) hop
    obtain ⟨k, more, rfl⟩ := List.exists_cons_of_ne_nil hne
    have hk := (hchars k (by simp [heq, hmore])).1
    simp [hk] at hend

end FieldSpec

/-! ### Clean terms -/

namespace Term

/-- The texts of the term have nothing in them that the dialect gives a meaning: no quote in the
value, and neither white space nor special characters in the rest. -/
structure Clean (d : Dialect) (t : Term) : Prop where
  /-- There is no quote in the value, which may be empty. -/
  quote_notMem : d.quote ∉ t.value
  /-- The field is a name. -/
  field : ∀ part ∈ t.field, d.IsName part
  /-- The operator is a name. -/
  operator : ∀ part ∈ t.operator, d.IsName part
  /-- The modifier is a name. -/
  modifier : ∀ part ∈ t.modifier, d.IsName part

instance (d : Dialect) (t : Term) : Decidable (t.Clean d) :=
  decidable_of_iff (d.quote ∉ t.value ∧ (∀ part ∈ t.field, d.IsName part) ∧
      (∀ part ∈ t.operator, d.IsName part) ∧ ∀ part ∈ t.modifier, d.IsName part)
    ⟨fun ⟨value, field, operator, modifier⟩ => ⟨value, field, operator, modifier⟩,
      fun h => ⟨h.quote_notMem, h.field, h.operator, h.modifier⟩⟩

/-- An operator or a modifier is only there with a field. -/
def Anchored (t : Term) : Prop :=
  t.field = none → t.operator = none ∧ t.modifier = none

instance (t : Term) : Decidable t.Anchored :=
  inferInstanceAs (Decidable (_ → _))

/-- **Clean terms can be written.** -/
theorem Clean.writable (hd : d.Sound) (h : t.Clean d) (hanchored : t.Anchored) : t.Writable d where
  quote_notMem := h.quote_notMem
  bare := hanchored
  spec f hf := by
    obtain ⟨name, hfield, rfl⟩ := Option.map_eq_some_iff.mp hf
    exact FieldSpec.Named.writable hd ⟨h.field name hfield, h.modifier, h.operator⟩

end Term

/-! ### Clean trees -/

/-- **Clean trees are read back** from their canonical text. -/
theorem parse_canonical_of_clean (hd : d.Sound) (hdepth : n.depth ≤ maxDepth)
    (hn : ∀ t ∈ n.terms, t.Clean d ∧ t.Anchored) : d.parse (n.canonical d) = .ok ⟨some n⟩ :=
  parse_of_writes hd (Node.writes hd fun t ht => (hn t ht).1.writable hd (hn t ht).2) hdepth

/-- **Canonical text is faithful.** A tree that has not too many levels and whose terms are clean
is read back from its text, wherever it comes from. So two such trees with the same text are the
same, and a tree that has been read in one dialect and is clean in another is read back from
its text there. -/
theorem canonical_faithful (hd : d.check = .ok ()) :
    (∀ n : Node, n.depth ≤ maxDepth → (∀ t ∈ n.terms, t.Clean d ∧ t.Anchored) →
      d.parse (Query.canonical d ⟨some n⟩) = .ok ⟨some n⟩) ∧
    (∀ m n : Node, m.depth ≤ maxDepth → n.depth ≤ maxDepth →
      (∀ t ∈ m.terms, t.Clean d ∧ t.Anchored) → (∀ t ∈ n.terms, t.Clean d ∧ t.Anchored) →
      Query.canonical d ⟨some m⟩ = Query.canonical d ⟨some n⟩ → m = n) ∧
    ∀ d' : Dialect, d'.check = .ok () → ∀ q Q, d'.parse q = .ok Q → (∀ t ∈ Q.terms, t.Clean d) →
      d.parse (Q.canonical d) = .ok Q := by
  have hd := check_eq_ok_iff.mp hd
  refine ⟨fun n => parse_canonical_of_clean hd, ?_, ?_⟩
  · intro m n hmdepth hndepth hm hn heq
    have hparse := parse_canonical_of_clean hd hmdepth hm
    have htext : m.canonical d = n.canonical d := heq
    rw [htext, parse_canonical_of_clean hd hndepth hn] at hparse
    simpa using hparse.symm
  · intro d' hd' q Q hparse hclean
    have hd' := check_eq_ok_iff.mp hd'
    obtain ⟨-, ts, -, ⟨-, rfl⟩ | ⟨p, -, hdepth, rfl⟩⟩ := parse_eq_ok_iff.mp hparse
    · exact parse_nil d
    · refine parse_canonical_of_clean hd hdepth fun t ht => ⟨hclean t ?_, ?_⟩
      · simpa [Query.terms] using ht
      · exact (writable_of_parse hd' hparse t ht).bare

/-- A field named like a keyword with an empty value, and a value that looks like more query, are
read back. With other quotes and parentheses another text is read as a clean tree, which can be
carried over. -/
theorem canonical_faithful_keyword_field :
    Dialect.standard.check = .ok () ∧
    Dialect.standard.parse "(NOT AND:\"\" AND \"a) OR (b\")".toList
      = .ok ⟨some (.and (.not (.term { value := [], field := some "AND".toList }))
          (.term { value := "a) OR (b".toList }))⟩ ∧
    Query.canonical Dialect.standard ⟨some (.term { value := "a".toList })⟩
      ≠ Query.canonical Dialect.standard ⟨some (.not (.term { value := "a".toList }))⟩ ∧
    { Dialect.standard with quote := '|', group := ⟨'<', '>'⟩ }.parse "<NOT |(| OR a>".toList
      = .ok ⟨some (.or (.not (.term { value := "(".toList })) (.term { value := "a".toList }))⟩ ∧
    Dialect.standard.parse "(NOT \"(\" OR a)".toList
      = .ok ⟨some (.or (.not (.term { value := "(".toList }))
          (.term { value := "a".toList }))⟩ := by
  have hother : { Dialect.standard with quote := '|', group := ⟨'<', '>'⟩ }.parse
        "<NOT |(| OR a>".toList
      = .ok ⟨some (.or (.not (.term { value := "(".toList }))
          (.term { value := "a".toList }))⟩ := by
    decide +kernel
  obtain ⟨hread, hinjective, hcarry⟩ := canonical_faithful (d := Dialect.standard) rfl
  have hbuilt := hread (.and (.not (.term { value := [], field := some "AND".toList }))
    (.term { value := "a) OR (b".toList })) (by decide +kernel) (by decide +kernel)
  have hdiffer := hinjective (.term { value := "a".toList }) (.not (.term { value := "a".toList }))
    (by decide +kernel) (by decide +kernel) (by decide +kernel) (by decide +kernel)
  exact ⟨rfl, hbuilt, mt hdiffer (by decide), hother,
    hcarry _ rfl _ _ hother (by decide +kernel)⟩

end BoolQuery
