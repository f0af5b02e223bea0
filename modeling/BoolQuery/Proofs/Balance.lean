import BoolQuery.Balance
import BoolQuery.Proofs.Dialect.Sound
import BoolQuery.Proofs.Fold

/-!
# Neutral Texts

A text is **neutral** when the bracket check passes over it outside quotes without a trace: its
brackets are matched and nested properly, and its quoted parts end. Neutral texts can be put
one after the other and into brackets of any class, so texts that are written by structure are
neutral by structure.

## Main definitions

* `Balance.Neutral`: neutral texts.

## Main results

* `Dialect.Sound.bracket?_eq_some_iff`: which characters are brackets.
* `Balance.Neutral.append`, `Balance.Neutral.bracketed`, `Balance.neutral_quoted`: how neutral
  texts are made.
* `Balance.Neutral.check`: a neutral query passes the bracket check.
-/

namespace BoolQuery

/-- The character on a side of a pair. -/
def BracketPair.character (p : BracketPair) : BracketSide → Char
  | .opening => p.opening
  | .closing => p.closing

namespace Dialect

variable {d : Dialect} {c : Char}

/-- A character is neither side of a pair. -/
theorem side?_eq_none_iff {p : BracketPair} :
    p.side? c = none ↔ c ≠ p.opening ∧ c ≠ p.closing := by
  rw [BracketPair.side?]
  split
  · next h => simp [h]
  · next h => simp [h]

/-- A character is no bracket when it neither groups nor belongs to a field specification. -/
theorem bracket?_eq_none_iff :
    d.bracket? c = none ↔ d.isGrouping c = false ∧ d.isFieldBracket c = false := by
  simp [bracket?, BracketKind.all, List.findSome?_eq_none_iff, pair, side?_eq_none_iff,
    isGrouping, isFieldBracket, and_assoc]

/-- A character is read as a bracket of a class only if it is one of its two sides. -/
theorem side?_of_bracket? {bracket : Bracket} (h : d.bracket? c = some bracket) :
    (d.pair bracket.kind).side? c = some bracket.side := by
  obtain ⟨kind, -, hkind⟩ := List.exists_of_findSome?_eq_some h
  obtain ⟨side, hside, rfl⟩ := Option.map_eq_some_iff.mp hkind
  exact hside

/-- **In a sound dialect a character is read as a side of a class of brackets exactly if it is
that side of the pair of that class.** -/
theorem Sound.bracket?_eq_some_iff (hd : d.Sound) {kind : BracketKind} {side : BracketSide} :
    d.bracket? c = some ⟨kind, side⟩ ↔ c = (d.pair kind).character side := by
  constructor
  · intro h
    have hside := side?_of_bracket? h
    rw [BracketPair.side?] at hside
    split at hside
    · next hc => cases hside; exact hc
    split at hside
    · next hc => cases hside; exact hc
    · cases hside
  · rintro rfl
    have := hd.nodup
    simp only [specials, List.nodup_cons, List.mem_cons, not_or] at this
    -- The classes are searched in order, so no pair may have a character of one before it.
    cases kind <;> cases side <;>
      simp only [bracket?, BracketKind.all, List.findSome?_cons, pair, BracketPair.side?,
        BracketPair.character] <;> grind

/-- The field delimiter and the quote are no brackets. -/
theorem Sound.bracket?_eq_none (hd : d.Sound) (hc : c = d.fieldDelimiter ∨ c = d.quote) :
    d.bracket? c = none := by
  have := hd.nodup
  simp only [specials, List.nodup_cons, List.mem_cons, not_or] at this
  simp only [bracket?_eq_none_iff, isGrouping, isFieldBracket, Bool.or_eq_false_iff,
    decide_eq_false_iff_not]
  grind

end Dialect

namespace Balance

variable {d : Dialect} {s t : Text} {b : Balance} {c : Char}

/-- The check passes over the text outside quotes and has the same brackets waiting after it. -/
def Neutral (d : Dialect) (t : Text) : Prop :=
  ∀ b : Balance, b.inQuote = false →
    t.foldlM (Balance.step d) b = .ok { b with offset := b.offset + Text.byteSize t }

theorem neutral_nil : Neutral d [] :=
  fun _ _ => rfl

/-- One neutral text after the other. -/
theorem Neutral.append (hs : Neutral d s) (ht : Neutral d t) : Neutral d (s ++ t) := by
  intro b hb
  have hrest := ht { b with offset := b.offset + Text.byteSize s } hb
  rw [foldlM_append_of_ok (hs b hb), hrest, Text.byteSize_append, Nat.add_assoc]

/-- Characters that are neither brackets nor quotes. -/
theorem neutral_of_forall (h : ∀ c ∈ t, c ≠ d.quote ∧ d.bracket? c = none) : Neutral d t := by
  intro b hb
  induction t generalizing b with
  | nil => rfl
  | cons c t ih =>
      obtain ⟨⟨hquote, hbracket⟩, hrest⟩ := List.forall_mem_cons.mp h
      have hstep : Balance.step d b c = .ok (b.pass c) := by
        rw [step, if_neg hquote, hb, bracket, hbracket]
        rfl
      rw [foldlM_cons_of_ok hstep, ih hrest (b.pass c) hb]
      simp [pass, Nat.add_assoc]

/-- Characters without a meaning. -/
theorem neutral_of_notMem_specials (h : ∀ c ∈ t, c ∉ d.specials) : Neutral d t := by
  apply neutral_of_forall
  intro c hc
  have := h c hc
  simp only [Dialect.specials, List.mem_cons, not_or] at this
  simp [Dialect.bracket?_eq_none_iff, Dialect.isGrouping, Dialect.isFieldBracket, this]

/-- A keyword. -/
theorem neutral_keyword (hd : d.Sound) (op : Operator) : Neutral d (d.keyword op) :=
  neutral_of_notMem_specials (hd.notMem_specials op)

/-- White space. -/
theorem neutral_of_blank (hd : d.Sound) (ht : t.all Text.isBlank = true) : Neutral d t :=
  neutral_of_notMem_specials fun _ hc hspecial => hd.notMem_of_blank hspecial ht hc

/-- Inside quotes nothing counts but the next quote. -/
theorem fold_inQuote (ht : d.quote ∉ t) (hb : b.inQuote = true) :
    t.foldlM (Balance.step d) b = .ok { b with offset := b.offset + Text.byteSize t } := by
  induction t generalizing b with
  | nil => rfl
  | cons c t ih =>
      simp only [List.mem_cons, not_or] at ht
      have hstep : Balance.step d b c = .ok (b.pass c) := by
        rw [step, if_neg (Ne.symm ht.1), if_pos hb]
      rw [foldlM_cons_of_ok hstep, ih (b := b.pass c) ht.2 hb]
      simp [pass, Nat.add_assoc]

/-- **A quoted part.** -/
theorem neutral_quoted (ht : d.quote ∉ t) : Neutral d (d.quote :: (t ++ [d.quote])) := by
  rintro ⟨offset, inQuote, pending⟩ rfl
  have hopen : Balance.step d ⟨offset, false, pending⟩ d.quote
      = .ok ⟨offset + d.quote.utf8Size, true, pending⟩ := if_pos rfl
  rw [foldlM_cons_of_ok hopen, foldlM_append_of_ok (fold_inQuote ht rfl), foldlM_singleton, step,
    if_pos rfl]
  simp [pass, Nat.add_assoc]

/-- **A neutral text in brackets.** -/
theorem Neutral.bracketed (hd : d.Sound) (ht : Neutral d t) (kind : BracketKind) :
    Neutral d ((d.pair kind).opening :: (t ++ [(d.pair kind).closing])) := by
  rintro ⟨offset, inQuote, pending⟩ rfl
  have hne : ∀ side c, d.bracket? c = some ⟨kind, side⟩ → c ≠ d.quote := by
    rintro side _ hc rfl
    rw [hd.bracket?_eq_none (.inr rfl)] at hc
    cases hc
  have hopen : d.bracket? (d.pair kind).opening = some ⟨kind, .opening⟩ :=
    hd.bracket?_eq_some_iff.mpr rfl
  have hclose : d.bracket? (d.pair kind).closing = some ⟨kind, .closing⟩ :=
    hd.bracket?_eq_some_iff.mpr rfl
  have hstep : Balance.step d ⟨offset, false, pending⟩ (d.pair kind).opening
      = .ok ⟨offset + (d.pair kind).opening.utf8Size, false,
          ⟨kind, offset, (d.pair kind).opening⟩ :: pending⟩ := by
    rw [step, if_neg (hne _ _ hopen)]
    simp [bracket, hopen, pass, Except.map]
  rw [foldlM_cons_of_ok hstep, foldlM_append_of_ok (ht _ rfl), foldlM_singleton, step,
    if_neg (hne _ _ hclose)]
  simp [bracket, hclose, close, pass, Except.map, Nat.add_assoc]

/-- **A neutral query passes the check.** -/
theorem Neutral.check (h : Neutral d t) : checkBalance d t = .ok () := by
  rw [checkBalance, h {} rfl]
  rfl

end Balance

end BoolQuery
