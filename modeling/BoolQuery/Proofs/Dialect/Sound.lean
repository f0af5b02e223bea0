import BoolQuery.Dialect.Check
import Mathlib.Data.List.Nodup
import Mathlib.Data.List.TakeWhile
import Mathlib.Tactic.Common

/-!
# Sound Dialects

A dialect that passes the check gives every character one meaning: the eight special
characters are different from each other and not white space, and keywords are different,
not empty, and made of neither white space nor special characters. This is all that the
theory of reading and writing queries uses of the check.

A keyword therefore never holds a character that ends a word. At any place of a text at most
one keyword stands as a whole word: the one that is the text up to the next such character.

## Main definitions

* `Dialect.Sound`: what the check makes sure of.

## Main results

* `Dialect.check_eq_ok_iff`: the check succeeds exactly on the sound dialects.
* `Dialect.Sound.afterKeyword?_eq_some_iff`: whole words are what stands in front of the next
  character that ends a word.
* `Dialect.Sound.keywordAt?_eq_some_iff`: the keyword found is the only one there is.
-/

namespace BoolQuery

/-- Every character has one meaning, and keywords are different words made of characters
without a meaning. -/
structure Dialect.Sound (d : Dialect) : Prop where
  /-- The special characters are different from each other. -/
  nodup : d.specials.Nodup
  /-- No special character is white space. -/
  isBlank_special : ∀ c ∈ d.specials, Text.isBlank c = false
  /-- No keyword is empty. -/
  keyword_ne_nil : ∀ op, d.keyword op ≠ []
  /-- No keyword has white space in it. -/
  isBlank_keyword : ∀ op, ∀ c ∈ d.keyword op, Text.isBlank c = false
  /-- No keyword has a special character in it. -/
  notMem_specials : ∀ op, ∀ c ∈ d.keyword op, c ∉ d.specials
  /-- No two operators have the same keyword. -/
  keyword_injective : Function.Injective d.keyword

/-! ### The check -/

/-- The check of characters succeeds when none is white space, none has been seen before, and
none comes twice. -/
theorem checkCharacters_eq_ok_iff {seen cs : List Char} :
    checkCharacters seen cs = .ok () ↔
      (∀ c ∈ cs, Text.isBlank c = false ∧ c ∉ seen) ∧ cs.Nodup := by
  induction cs generalizing seen with
  | nil => simp [checkCharacters]
  | cons c cs ih =>
      rw [checkCharacters]
      split
      · next hblank => simp [hblank]
      split
      · next hseen => simp [hseen]
      · next hblank hseen =>
        rw [ih, List.forall_mem_cons, List.nodup_cons]
        simp only [Bool.not_eq_true] at hblank
        simp only [hblank, hseen, not_false_eq_true, and_self, true_and, List.mem_cons, not_or]
        constructor
        · rintro ⟨hall, hnodup⟩
          exact ⟨fun c' hc' => ⟨(hall c' hc').1, (hall c' hc').2.2⟩,
            fun hmem => (hall c hmem).2.1 rfl, hnodup⟩
        · rintro ⟨hall, hnot, hnodup⟩
          exact ⟨fun c' hc' => ⟨(hall c' hc').1, fun heq => hnot (heq ▸ hc'), (hall c' hc').2⟩,
            hnodup⟩

namespace Dialect

variable {d : Dialect}

/-- The check of keywords succeeds when none is empty, none has a character that may not stand
in a keyword, none has been seen before, and none comes twice. -/
theorem checkKeywords_eq_ok_iff {seen : List Text} {ops : List Operator} :
    d.checkKeywords seen ops = .ok () ↔
      (∀ op ∈ ops, d.keyword op ≠ [] ∧
        (∀ c ∈ d.keyword op, Text.isBlank c = false ∧ c ∉ d.specials) ∧ d.keyword op ∉ seen) ∧
      (ops.map d.keyword).Nodup := by
  induction ops generalizing seen with
  | nil => simp [checkKeywords]
  | cons op ops ih =>
      rw [checkKeywords]
      split
      · next hempty => simp [hempty]
      split
      · next husable =>
        obtain ⟨c, hc, hbad⟩ := List.any_eq_true.mp husable
        refine iff_of_false nofun fun h => ?_
        obtain ⟨hblank, hspecial⟩ := (h.1 op List.mem_cons_self).2.1 c hc
        simp [hblank, hspecial] at hbad
      split
      · next hseen => simp [hseen]
      · next hempty husable hseen =>
        have hplain : ∀ c ∈ d.keyword op, Text.isBlank c = false ∧ c ∉ d.specials := by
          simpa using husable
        rw [ih, List.forall_mem_cons, List.map_cons, List.nodup_cons]
        simp only [hempty, hseen, ne_eq, not_false_eq_true, true_and, and_true, List.mem_cons,
          not_or, List.mem_map, not_exists, not_and]
        constructor
        · rintro ⟨hall, hnodup⟩
          exact ⟨⟨hplain, fun op' hop' => ⟨(hall op' hop').1, (hall op' hop').2.1,
            (hall op' hop').2.2.2⟩⟩, fun op' hop' => (hall op' hop').2.2.1, hnodup⟩
        · rintro ⟨⟨-, hall⟩, hnot, hnodup⟩
          exact ⟨fun op' hop' => ⟨(hall op' hop').1, (hall op' hop').2.1, hnot op' hop',
            (hall op' hop').2.2⟩, hnodup⟩

/-- **The check succeeds exactly on the sound dialects.** -/
theorem check_eq_ok_iff : d.check = .ok () ↔ d.Sound := by
  have hcheck : d.check = .ok () ↔
      checkCharacters [] d.specials = .ok () ∧ d.checkKeywords [] Operator.all = .ok () := by
    rw [check]
    cases checkCharacters [] d.specials with
    | error e => exact iff_of_false nofun (fun h => nomatch h.1)
    | ok u => exact ⟨fun h => ⟨rfl, h⟩, fun h => h.2⟩
  have hmem := Operator.mem_all
  rw [hcheck, checkCharacters_eq_ok_iff, checkKeywords_eq_ok_iff]
  constructor
  · rintro ⟨⟨hchars, hnodup⟩, hkeywords, hdistinct⟩
    refine ⟨hnodup, fun c hc => (hchars c hc).1, fun op => (hkeywords op (hmem op)).1,
      fun op c hc => ((hkeywords op (hmem op)).2.1 c hc).1,
      fun op c hc => ((hkeywords op (hmem op)).2.1 c hc).2, fun op op' heq => ?_⟩
    exact List.inj_on_of_nodup_map hdistinct (hmem op) (hmem op') heq
  · intro h
    refine ⟨⟨fun c hc => ⟨h.isBlank_special c hc, List.not_mem_nil⟩, h.nodup⟩,
      fun op _ => ⟨h.keyword_ne_nil op,
        fun c hc => ⟨h.isBlank_keyword op c hc, h.notMem_specials op c hc⟩,
        List.not_mem_nil⟩, ?_⟩
    exact List.Nodup.map h.keyword_injective (by decide)

/-- A character ends no word when it is not white space, does not group, and is no quote. -/
theorem endsWord_eq_false_iff {c : Char} :
    d.endsWord c = false ↔ Text.isBlank c = false ∧ d.isGrouping c = false ∧ c ≠ d.quote := by
  simp [endsWord, and_assoc]

/-- A text without quotes, in the form that takes and drops of quotes ask for. -/
theorem bne_quote_of_notMem {t : Text} (h : d.quote ∉ t) : ∀ c ∈ t, (c != d.quote) = true :=
  fun _ hc => bne_iff_ne.mpr fun heq => h (heq ▸ hc)

@[simp] theorem isGrouping_opening : d.isGrouping d.group.opening = true := by
  simp [isGrouping]

@[simp] theorem isGrouping_closing : d.isGrouping d.group.closing = true := by
  simp [isGrouping]

namespace Sound

/-! ### Characters -/

/-- The quote does not group. -/
theorem isGrouping_quote (h : d.Sound) : d.isGrouping d.quote = false := by
  have := h.nodup
  simp only [specials, List.nodup_cons, List.mem_cons, not_or] at this
  simp only [isGrouping, Bool.or_eq_false_iff, decide_eq_false_iff_not]
  grind

/-- The field delimiter is not the quote. -/
theorem fieldDelimiter_ne_quote (h : d.Sound) : d.fieldDelimiter ≠ d.quote := by
  have := h.nodup
  simp only [specials, List.nodup_cons, List.mem_cons, not_or] at this
  grind

/-- The field delimiter does not group. -/
theorem isGrouping_fieldDelimiter (h : d.Sound) : d.isGrouping d.fieldDelimiter = false := by
  have := h.nodup
  simp only [specials, List.nodup_cons, List.mem_cons, not_or] at this
  simp only [isGrouping, Bool.or_eq_false_iff, decide_eq_false_iff_not]
  grind

/-- The field delimiter is not white space. -/
theorem isBlank_fieldDelimiter (h : d.Sound) : Text.isBlank d.fieldDelimiter = false :=
  h.isBlank_special _ (by simp [specials])

/-- The field delimiter does not end a word. -/
theorem endsWord_fieldDelimiter (h : d.Sound) : d.endsWord d.fieldDelimiter = false :=
  endsWord_eq_false_iff.mpr
    ⟨h.isBlank_fieldDelimiter, h.isGrouping_fieldDelimiter, h.fieldDelimiter_ne_quote⟩

/-- The two grouping characters are different. -/
theorem opening_ne_closing (h : d.Sound) : d.group.opening ≠ d.group.closing := by
  have := h.nodup
  simp only [specials, List.nodup_cons, List.mem_cons, not_or] at this
  grind

/-- The quote is not white space. -/
theorem isBlank_quote (h : d.Sound) : Text.isBlank d.quote = false :=
  h.isBlank_special _ (by simp [specials])

/-- There is no special character in white space. -/
theorem notMem_of_blank (h : d.Sound) {c : Char} (hc : c ∈ d.specials) {t : Text}
    (ht : t.all Text.isBlank = true) : c ∉ t := by
  intro hmem
  have := List.all_eq_true.mp ht c hmem
  rw [h.isBlank_special c hc] at this
  cases this

/-- There is no quote in white space. -/
theorem quote_notMem_of_blank (h : d.Sound) {t : Text} (ht : t.all Text.isBlank = true) :
    d.quote ∉ t :=
  h.notMem_of_blank (by simp [specials]) ht

/-- There is no field delimiter in white space. -/
theorem fieldDelimiter_notMem_of_blank (h : d.Sound) {t : Text}
    (ht : t.all Text.isBlank = true) : d.fieldDelimiter ∉ t :=
  h.notMem_of_blank (by simp [specials]) ht

/-- The characters that group are not white space. -/
theorem isBlank_of_isGrouping (h : d.Sound) {c : Char} (hc : d.isGrouping c = true) :
    Text.isBlank c = false := by
  simp only [isGrouping, Bool.or_eq_true, decide_eq_true_eq] at hc
  rcases hc with rfl | rfl <;> exact h.isBlank_special _ (by simp [specials])

/-- The opening grouping character is not the quote. -/
theorem opening_ne_quote (h : d.Sound) : d.group.opening ≠ d.quote := by
  intro heq
  have := h.isGrouping_quote
  simp [isGrouping, ← heq] at this

/-- The closing grouping character is not the quote. -/
theorem closing_ne_quote (h : d.Sound) : d.group.closing ≠ d.quote := by
  intro heq
  have := h.isGrouping_quote
  simp [isGrouping, ← heq] at this

/-- No character of a keyword ends a word. -/
theorem endsWord_keyword (h : d.Sound) (op : Operator) {c : Char} (hc : c ∈ d.keyword op) :
    d.endsWord c = false := by
  have hspecial := h.notMem_specials op c hc
  simp only [specials, List.mem_cons, not_or] at hspecial
  simp [endsWord, isGrouping, h.isBlank_keyword op c hc, hspecial]

/-- A keyword begins with a character that does not end words. -/
theorem exists_keyword_eq_cons (h : d.Sound) (op : Operator) :
    ∃ k ks, d.keyword op = k :: ks ∧ d.endsWord k = false := by
  obtain ⟨k, ks, hkw⟩ := List.exists_cons_of_ne_nil (h.keyword_ne_nil op)
  exact ⟨k, ks, hkw, h.endsWord_keyword op (by simp [hkw])⟩

/-- There is no quote in a keyword. -/
theorem quote_notMem_keyword (h : d.Sound) (op : Operator) : d.quote ∉ d.keyword op :=
  fun hmem => h.notMem_specials op _ hmem (by simp [specials])

/-! ### Whole words -/

/-- **A keyword stands at the front of a text as a whole word exactly when it is the text up to
the next character that ends a word.** -/
theorem afterKeyword?_eq_some_iff (h : d.Sound) {t rest : Text} {op : Operator} :
    d.afterKeyword? t op = some rest ↔
      d.keyword op = t.takeWhile (!d.endsWord ·) ∧ rest = t.dropWhile (!d.endsWord ·) := by
  have hkeyword : ∀ c ∈ d.keyword op, (!d.endsWord c) = true := fun c hc => by
    simp [h.endsWord_keyword op hc]
  rw [Dialect.afterKeyword?_eq_some_iff]
  constructor
  · rintro ⟨-, rfl, hend⟩
    rw [List.takeWhile_append_of_pos hkeyword, List.dropWhile_append_of_pos hkeyword]
    cases rest with
    | nil => simp
    | cons c rest =>
        have hc : d.endsWord c = true := by simpa using hend
        simp [hc]
  · rintro ⟨hop, rfl⟩
    refine ⟨h.keyword_ne_nil op, by rw [hop, List.takeWhile_append_dropWhile], ?_⟩
    have := List.head?_dropWhile_not (fun c => !d.endsWord c) t
    cases hhead : (t.dropWhile (!d.endsWord ·)).head? with
    | none => rfl
    | some c => simpa [hhead] using this

/-- At most one keyword stands at the front of a text as a whole word. -/
theorem afterKeyword?_unique (h : d.Sound) {t rest rest' : Text} {op op' : Operator}
    (hop : d.afterKeyword? t op = some rest) (hop' : d.afterKeyword? t op' = some rest') :
    op = op' ∧ rest = rest' := by
  obtain ⟨heq, rfl⟩ := h.afterKeyword?_eq_some_iff.mp hop
  obtain ⟨heq', rfl⟩ := h.afterKeyword?_eq_some_iff.mp hop'
  exact ⟨h.keyword_injective (heq.trans heq'.symm), rfl⟩

/-- **The keyword that is found is the one that stands there.** -/
theorem keywordAt?_eq_some_iff (h : d.Sound) {t rest : Text} {op : Operator} :
    d.keywordAt? t = some (op, rest) ↔ d.afterKeyword? t op = some rest := by
  refine ⟨afterKeyword?_of_keywordAt?, fun hop => ?_⟩
  have hmem : (op, rest) ∈ Operator.all.filterMap fun op => (d.afterKeyword? t op).map (op, ·) :=
    List.mem_filterMap.mpr ⟨op, by cases op <;> decide, by rw [hop]; rfl⟩
  cases hfound : d.keywordAt? t with
  | none =>
      have := List.isSome_maxOn?_of_mem (f := fun found : Operator × Text =>
        Text.byteSize (d.keyword found.1)) hmem
      rw [keywordAt?] at hfound
      simp [hfound] at this
  | some found =>
      obtain ⟨op', rest'⟩ := found
      obtain ⟨rfl, rfl⟩ := h.afterKeyword?_unique (afterKeyword?_of_keywordAt? hfound) hop
      rfl

/-- A keyword is found at the front of a text exactly when the text is the keyword, followed
by its end or by a character that ends a word. -/
theorem keywordAt?_eq_some_iff_append (h : d.Sound) {t rest : Text} {op : Operator} :
    d.keywordAt? t = some (op, rest) ↔
      t = d.keyword op ++ rest ∧ rest.head?.all d.endsWord = true := by
  rw [h.keywordAt?_eq_some_iff, Dialect.afterKeyword?_eq_some_iff]
  exact and_iff_right (h.keyword_ne_nil op)

/-- No keyword begins with a character that ends words. -/
theorem keywordAt?_eq_none (h : d.Sound) {c : Char} (hc : d.endsWord c = true) (rest : Text) :
    d.keywordAt? (c :: rest) = none := by
  by_contra hkey
  obtain ⟨⟨op, after⟩, hop⟩ := Option.ne_none_iff_exists'.mp hkey
  obtain ⟨heq, -⟩ := h.keywordAt?_eq_some_iff_append.mp hop
  obtain ⟨k, ks, hkw, hk⟩ := h.exists_keyword_eq_cons op
  rw [hkw] at heq
  obtain ⟨rfl, -⟩ := List.cons.inj heq
  rw [hc] at hk
  cases hk

/-- A keyword that stands as a word at the front of a text without a character that ends words,
which itself stands in front of one, is all of the text. -/
theorem keyword_eq_of_keywordAt? (h : d.Sound) {t after rest : Text} {op : Operator}
    (hop : d.keywordAt? (t ++ after) = some (op, rest)) (ht : ∀ c ∈ t, d.endsWord c = false)
    (hafter : after.head?.all d.endsWord = true) : d.keyword op = t := by
  have hword := (h.afterKeyword?_eq_some_iff.mp (h.keywordAt?_eq_some_iff.mp hop)).1
  rw [hword, List.takeWhile_append_of_pos (by simpa using ht)]
  cases after with
  | nil => simp
  | cons c after =>
      have hc : d.endsWord c = true := by simpa using hafter
      simp [hc]

/-- A keyword that stands as a word in front of a field delimiter ends before it. -/
theorem keywordAt?_fieldDelimiter (h : d.Sound) {t after rest : Text} {op : Operator}
    (hop : d.keywordAt? (t ++ d.fieldDelimiter :: after) = some (op, rest)) :
    ∃ more, t = d.keyword op ++ more ∧ more ≠ [] ∧ more.head?.all d.endsWord = true := by
  obtain ⟨heq, hend⟩ := h.keywordAt?_eq_some_iff_append.mp hop
  have hdelim : d.fieldDelimiter ∉ d.keyword op := fun hmem =>
    h.notMem_specials op _ hmem (by simp [specials])
  rcases List.append_eq_append_iff.mp heq with ⟨z, hz, hrest⟩ | ⟨z, rfl, rfl⟩
  · cases z with
    | nil =>
        rw [List.nil_append] at hrest
        simp [← hrest, h.endsWord_fieldDelimiter] at hend
    | cons c z =>
        obtain ⟨rfl, -⟩ := List.cons.inj hrest
        exact absurd (by rw [hz]; simp) hdelim
  · cases z with
    | nil => simp [h.endsWord_fieldDelimiter] at hend
    | cons c z => exact ⟨c :: z, rfl, by simp, by simpa using hend⟩

end Sound

end Dialect

end BoolQuery
