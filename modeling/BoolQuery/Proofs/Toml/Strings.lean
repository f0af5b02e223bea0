import BoolQuery.Toml.StringForm
import BoolQuery.Toml.StringReader
import Mathlib.Tactic.Common

/-!
# Writing Strings and Reading Them Back

A string that is written in the form chosen for it is read as what it was, whatever follows the
closing marks, if only it is not another mark. On one line this is so because the closing mark is
escaped in a basic string and missing in a literal one. On several lines up to two marks may stand
side by side, and may even stand in front of the closing ones: the reader takes the first three of
a row for the closing ones, and counts up to two more behind them as part of the string.

## Main definitions

* `Toml.StringForm.Holds`: the texts that a form can hold.

## Main results

* `Toml.escapeBasic_cases`: what is written for a character in a basic string.
* `Toml.readBasic?_body`, `Toml.readLiteral?_append`, `Toml.readMultilineBasic?_body`,
  `Toml.readMultilineLiteral?_append`: reading each of the forms.
* `Toml.StringForm.holds_of`: the form chosen for a text can hold it.
* `Toml.readString?_writeString`: writing and reading back.
-/

namespace BoolQuery.Toml

variable {c mark x : Char} {t u rest : Text} {run : Nat}

/-! ### Runs of a character -/

/-- A longer run before a text, or a longer one seen already, makes for a longer one in all. -/
theorem longestRunFrom_mono {current current' longest longest' : Nat}
    (hcurrent : current ≤ current') (hlongest : longest ≤ longest') (t : Text) :
    longestRunFrom c current longest t ≤ longestRunFrom c current' longest' t := by
  induction t generalizing current current' longest longest' with
  | nil =>
      rw [longestRunFrom, longestRunFrom]
      omega
  | cons x rest ih =>
      rw [longestRunFrom, longestRunFrom]
      split
      · exact ih (Nat.succ_le_succ hcurrent) hlongest
      · exact ih (Nat.le_refl 0) (by omega)

/-- What has been seen counts. -/
theorem le_longestRunFrom (current longest : Nat) (t : Text) :
    max current longest ≤ longestRunFrom c current longest t := by
  induction t generalizing current longest with
  | nil => exact Nat.le_refl _
  | cons x rest ih =>
      rw [longestRunFrom]
      split
      · have := ih (current + 1) longest
        omega
      · have := ih 0 (max current longest)
        omega

/-- The runs of the rest of a text are no longer than those of the text. -/
theorem longestRun_le_cons (c x : Char) (t : Text) : longestRun c t ≤ longestRun c (x :: t) := by
  rw [longestRun, longestRun, longestRunFrom]
  split
  · exact longestRunFrom_mono (Nat.zero_le 1) (Nat.le_refl 0) t
  · exact Nat.le_refl _

/-- A character without a run is not in the text. -/
theorem notMem_of_longestRun_eq_zero (h : longestRun c t = 0) : c ∉ t := by
  induction t with
  | nil => simp
  | cons x t ih =>
      have hrest := longestRun_le_cons c x t
      rw [List.mem_cons, not_or]
      refine ⟨?_, ih (by omega)⟩
      rintro rfl
      have := le_longestRunFrom (c := c) (0 + 1) 0 t
      rw [longestRun, longestRunFrom, if_pos rfl] at h
      omega

/-- Three in a row are a run of three. -/
theorem three_le_longestRun (c : Char) (t : Text) : 3 ≤ longestRun c (c :: c :: c :: t) := by
  have := le_longestRunFrom (c := c) (0 + 1 + 1 + 1) 0 t
  simp only [longestRun, longestRunFrom, if_true]
  omega

/-! ### Characters that stand for themselves -/

/-- Within a line all but controls stand for themselves. -/
theorem isPlain_iff : isPlain c = true ↔ isControl c = false ∧ c ≠ '\n' := by
  have htab : c = '\t' ↔ c.toNat = 9 := Char.toNat_inj.symm
  have hfeed : c = '\n' ↔ c.toNat = 10 := Char.toNat_inj.symm
  by_cases hdelete : c = '\x7f'
  · simp [isPlain, isControl, hdelete]
  · simp only [isPlain, isControl, Bool.and_eq_true, Bool.or_eq_true, decide_eq_true_eq, beq_iff_eq,
      bne_iff_ne, ne_eq, Bool.or_eq_false_iff, Bool.and_eq_false_iff, decide_eq_false_iff_not,
      beq_eq_false_iff_ne, bne_eq_false_iff_eq, htab, hfeed, hdelete, not_false_eq_true, and_true]
    omega

/-- A carriage return is a control. -/
theorem ne_return_of_isPlain (h : isPlain c = true) : c ≠ '\r' := by
  rintro rfl
  cases h

/-! ### Escapes -/

/-- Every hexadecimal digit is read as its value. -/
theorem hexValue?_digitChar : ∀ n < 16, hexValue? (Nat.digitChar n).toUpper = some n := by
  decide

/-- A code point below 256 is read as its character. -/
theorem readCodePoint?_hexPair (h : c.toNat < 256) (rest : Text) :
    readCodePoint? 4 ('0' :: '0' :: (hexPair c.toNat ++ rest)) = some (c, rest) := by
  have hhigh := hexValue?_digitChar (c.toNat / 16) (by omega)
  have hlow := hexValue?_digitChar (c.toNat % 16) (by omega)
  have hzero : hexValue? '0' = some 0 := rfl
  have hdigits : (List.take 4 ('0' :: '0' :: (hexPair c.toNat ++ rest))).mapM hexValue?
      = some [0, 0, c.toNat / 16, c.toNat % 16] := by
    simp [hexPair, hzero, hhigh, hlow]
  have hvalue : [0, 0, c.toNat / 16, c.toNat % 16].foldl (fun n v => 16 * n + v) 0 = c.toNat := by
    simp only [List.foldl_cons, List.foldl_nil]
    omega
  rw [readCodePoint?, hdigits]
  simp only [Option.bind_eq_bind, Option.bind_some, hvalue, Char.ofNat_toNat]
  exact if_pos ⟨rfl, c.valid⟩

/-- **What is written for a character in a basic string**: the character itself, which has no
other meaning there, or an escape that is read as the character and is no line continuation. -/
theorem escapeBasic_cases (hc : c ≠ '"') :
    escapeBasic c = [c] ∧ isPlain c = true ∧ c ≠ '\\' ∨
      ∃ e u, escapeBasic c = '\\' :: e :: u ∧ isSpace e = false ∧ e ≠ '\n' ∧ e ≠ '\r' ∧
        ∀ rest, readEscape? (e :: (u ++ rest)) = some (c, rest) := by
  rw [escapeBasic]
  split
  · next h => exact .inr ⟨'b', [], rfl, rfl, by decide, by decide, fun rest => by rw [h]; rfl⟩
  split
  · next h => exact .inr ⟨'t', [], rfl, rfl, by decide, by decide, fun rest => by rw [h]; rfl⟩
  split
  · next h => exact .inr ⟨'n', [], rfl, rfl, by decide, by decide, fun rest => by rw [h]; rfl⟩
  split
  · next h => exact .inr ⟨'f', [], rfl, rfl, by decide, by decide, fun rest => by rw [h]; rfl⟩
  split
  · next h => exact .inr ⟨'r', [], rfl, rfl, by decide, by decide, fun rest => by rw [h]; rfl⟩
  split
  · next h => exact .inr ⟨'\\', [], rfl, rfl, by decide, by decide, fun rest => by rw [h]; rfl⟩
  split
  · next hcontrol =>
    have hlt : c.toNat < 256 := by
      simp only [isControl, Bool.or_eq_true, Bool.and_eq_true, decide_eq_true_eq, beq_iff_eq]
        at hcontrol
      rcases hcontrol with ⟨⟨h, -⟩, -⟩ | rfl
      · omega
      · decide
    exact .inr ⟨'u', _, rfl, rfl, by decide, by decide, fun rest => readCodePoint?_hexPair hlt rest⟩
  · next hfeed _ _ hbackslash hcontrol =>
    exact .inl ⟨rfl, isPlain_iff.mpr ⟨by simpa using hcontrol, hfeed⟩, hbackslash⟩

/-! ### Basic strings on one line -/

/-- An escape in a basic string. -/
theorem readBasic?_escape (h : readEscape? u = some (c, rest)) :
    readBasic? ('\\' :: u) = consRead c (readBasic? rest) := by
  rw [readBasic?]
  split
  · next hnone => rw [hnone] at h; cases h
  · next hsome =>
    obtain ⟨rfl, rfl⟩ := Prod.mk.inj (Option.some.inj (hsome.symm.trans h))
    rfl

/-- A character that stands for itself in a basic string. -/
theorem readBasic?_plain (hc : isPlain c = true) (hquote : c ≠ '"') (hbackslash : c ≠ '\\')
    (t : Text) : readBasic? (c :: t) = consRead c (readBasic? t) := by
  rw [readBasic?.eq_4 _ _ hquote hbackslash, if_pos hc]

/-- **Reading a basic string.** -/
theorem readBasic?_body (t rest : Text) :
    readBasic? (basicBody t ++ '"' :: rest) = some (t, rest) := by
  induction t with
  | nil =>
      rw [basicBody, List.flatMap_nil, List.nil_append, readBasic?]
  | cons c t ih =>
      rw [basicBody, List.flatMap_cons, ← basicBody, List.append_assoc]
      by_cases hc : c = '"'
      · subst hc
        have hescape : readEscape? ('"' :: (basicBody t ++ '"' :: rest))
            = some ('"', basicBody t ++ '"' :: rest) := rfl
        rw [if_pos rfl]
        exact (readBasic?_escape hescape).trans (by rw [ih]; rfl)
      · rw [if_neg hc]
        rcases escapeBasic_cases hc with ⟨hself, hplain, hbackslash⟩ | ⟨e, u, heq, -, -, -, hread⟩
        · rw [hself, List.singleton_append, readBasic?_plain hplain hc hbackslash, ih]
          rfl
        · rw [heq]
          exact (readBasic?_escape (hread _)).trans (by rw [ih]; rfl)

/-! ### Literal strings on one line -/

/-- **Reading a literal string.** -/
theorem readLiteral?_append (hplain : ∀ c ∈ t, isPlain c = true) (hmark : '\'' ∉ t) (rest : Text) :
    readLiteral? (t ++ '\'' :: rest) = some (t, rest) := by
  induction t with
  | nil => rfl
  | cons c t ih =>
      obtain ⟨hc, hplain⟩ := List.forall_mem_cons.mp hplain
      obtain ⟨hne, hmark⟩ := not_or.mp (mt List.mem_cons.mpr hmark)
      rw [List.cons_append, readLiteral?.eq_3 _ _ (Ne.symm hne), if_pos hc, ih hplain hmark]
      rfl

/-! ### Closing marks of strings on several lines -/

/-- Without a mark behind the closing ones, the string is complete. -/
theorem closeMultiline_of_ne (h : rest.head? ≠ some mark) :
    closeMultiline mark rest = ([], rest) := by
  rcases rest with _ | ⟨x, _ | ⟨y, rest⟩⟩
  · rfl
  · exact if_neg (by simpa using h)
  · exact if_neg (by simpa using h)

/-- One mark in front of the closing ones: of the four, the last one is left over for the
string. -/
theorem closeMultiline_mark (h : rest.head? ≠ some mark) :
    closeMultiline mark (mark :: rest) = ([mark], rest) := by
  rcases rest with _ | ⟨y, rest⟩
  · exact if_pos rfl
  · have hne : y ≠ mark := by simpa using h
    rw [closeMultiline, if_pos rfl, if_neg hne]

/-- Two marks in front of the closing ones. -/
theorem closeMultiline_marks (mark : Char) (rest : Text) :
    closeMultiline mark (mark :: mark :: rest) = ([mark, mark], rest) := by
  rw [closeMultiline, if_pos rfl, if_pos rfl]

/-- Where no line end stands behind the opening marks, none is dropped. -/
theorem dropNewline_of_ne (hc : c ≠ '\n') (hc' : c ≠ '\r') (t : Text) :
    dropNewline (c :: t) = c :: t := by
  rw [dropNewline, afterNewline?.eq_3]
  · rfl
  · rintro u ⟨⟩
    exact hc rfl
  · rintro u ⟨⟩
    exact hc' rfl

/-! ### Basic strings on several lines -/

/-- Three marks close the string. -/
theorem readMultilineBasic?_close (rest : Text) :
    readMultilineBasic? ('"' :: '"' :: '"' :: rest) = some (closeMultiline '"' rest) := by
  rw [readMultilineBasic?]

/-- A character that stands for itself, which a mark does if no two others follow. -/
theorem readMultilineBasic?_self (hself : (isPlain c || c == '\n') = true) (hbackslash : c ≠ '\\')
    (hmarks : c = '"' → ∀ v, u ≠ '"' :: '"' :: v) :
    readMultilineBasic? (c :: u) = consRead c (readMultilineBasic? u) := by
  have hreturn : c ≠ '\r' := by
    rintro rfl
    cases hself
  rw [readMultilineBasic?.eq_5 _ _ (fun v hc hu => hmarks hc v hu) hbackslash
    (fun _ hc _ => hreturn hc), if_pos hself]

/-- An escape that is no line continuation. -/
theorem readMultilineBasic?_escape {e : Char} (hspace : isSpace e = false) (hfeed : e ≠ '\n')
    (hreturn : e ≠ '\r') (h : readEscape? (e :: u) = some (c, rest)) :
    readMultilineBasic? ('\\' :: e :: u) = consRead c (readMultilineBasic? rest) := by
  have hnone : afterContinuation? (e :: u) = none := by
    rw [afterContinuation?, List.dropWhile_cons_of_neg (by simpa using hspace), afterNewline?.eq_3]
    · rfl
    · rintro v ⟨⟩
      exact hfeed rfl
    · rintro v ⟨⟩
      exact hreturn rfl
  rw [readMultilineBasic?]
  split
  · next hsome => rw [hnone] at hsome; cases hsome
  · split
    · next hread => rw [hread] at h; cases h
    · next hread =>
      obtain ⟨rfl, rfl⟩ := Prod.mk.inj (Option.some.inj (hread.symm.trans h))
      rfl

/-- What is written for a text begins with a bare mark only if the text does, and only up to two
bare marks stand in a row. -/
theorem multilineBody_cons_of_ne (h : c = '"' → 2 ≤ run) (t : Text) :
    ∃ x u, multilineBody run (c :: t) = x :: u ∧ x ≠ '"' := by
  rw [multilineBody]
  split
  · next hc =>
    rw [if_neg (Nat.not_lt.mpr (h hc))]
    exact ⟨'\\', _, rfl, by decide⟩
  split
  · exact ⟨'\n', _, rfl, by decide⟩
  · next hc _ =>
    rcases escapeBasic_cases hc with ⟨hself, -, -⟩ | ⟨e, u, heq, -⟩
    · exact ⟨c, _, by rw [hself]; rfl, hc⟩
    · exact ⟨'\\', _, by rw [heq]; rfl, by decide⟩

/-- Behind a bare mark two others follow only at the end of the string, where one mark of it or
none is left. -/
theorem eq_of_multilineBody_marks {v : Text}
    (h : multilineBody (run + 1) t ++ '"' :: '"' :: '"' :: rest = '"' :: '"' :: v) :
    t = [] ∧ v = '"' :: rest ∨ t = ['"'] ∧ v = '"' :: '"' :: rest := by
  cases t with
  | nil =>
      rw [multilineBody] at h
      simp only [List.nil_append, List.cons.injEq, true_and] at h
      exact .inl ⟨rfl, h.symm⟩
  | cons c t =>
      by_cases hfree : c = '"' → 2 ≤ run + 1
      · obtain ⟨x, u, hbody, hx⟩ := multilineBody_cons_of_ne hfree t
        rw [hbody] at h
        exact absurd (List.cons.inj h).1 hx
      · obtain ⟨rfl, hrun⟩ := Classical.not_imp.mp hfree
        rw [multilineBody, if_pos rfl, if_pos (Nat.lt_of_not_ge hrun), List.cons_append] at h
        cases t with
        | nil =>
            rw [multilineBody] at h
            simp only [List.nil_append, List.cons.injEq, true_and] at h
            exact .inr ⟨rfl, h.symm⟩
        | cons c t =>
            have hnext : c = '"' → 2 ≤ run + 1 + 1 := fun _ => by omega
            obtain ⟨x, u, hbody, hx⟩ := multilineBody_cons_of_ne hnext t
            rw [hbody] at h
            exact absurd (List.cons.inj (List.cons.inj h).2).1 hx

/-- A bare mark of the string, which may be one of those in front of the closing ones. -/
theorem readMultilineBasic?_mark (hrest : rest.head? ≠ some '"')
    (h : readMultilineBasic? (multilineBody (run + 1) t ++ '"' :: '"' :: '"' :: rest) =
      some (t, rest)) :
    readMultilineBasic? ('"' :: (multilineBody (run + 1) t ++ '"' :: '"' :: '"' :: rest)) =
      some ('"' :: t, rest) := by
  by_cases hmarks : ∀ v, multilineBody (run + 1) t ++ '"' :: '"' :: '"' :: rest ≠ '"' :: '"' :: v
  · rw [readMultilineBasic?_self rfl (by decide) (fun _ => hmarks), h]
    rfl
  · -- the reader takes this mark and the next two for the closing ones
    obtain ⟨v, hv⟩ := Classical.not_forall_not.mp hmarks
    rw [hv, readMultilineBasic?_close]
    rcases eq_of_multilineBody_marks hv with ⟨rfl, rfl⟩ | ⟨rfl, rfl⟩
    · rw [closeMultiline_mark hrest]
    · rw [closeMultiline_marks]

/-- **Reading a basic string on several lines**, behind any number of bare marks. -/
theorem readMultilineBasic?_body (hrest : rest.head? ≠ some '"') (run : Nat) (t : Text) :
    readMultilineBasic? (multilineBody run t ++ '"' :: '"' :: '"' :: rest) = some (t, rest) := by
  induction t generalizing run with
  | nil =>
      rw [multilineBody, List.nil_append, readMultilineBasic?_close, closeMultiline_of_ne hrest]
  | cons c t ih =>
      rw [multilineBody]
      split
      · next hc =>
        subst hc
        split
        · exact readMultilineBasic?_mark hrest (ih _)
        · have hescape : readEscape? ('"' :: (multilineBody 0 t ++ '"' :: '"' :: '"' :: rest))
              = some ('"', multilineBody 0 t ++ '"' :: '"' :: '"' :: rest) := rfl
          exact (readMultilineBasic?_escape rfl (by decide) (by decide) hescape).trans
            (by rw [ih]; rfl)
      split
      · next hfeed =>
        subst hfeed
        have hmark : '\n' ≠ '"' := by decide
        rw [List.cons_append,
          readMultilineBasic?_self rfl (by decide) (fun h => absurd h hmark), ih]
        rfl
      · next hc _ =>
        rw [List.append_assoc]
        rcases escapeBasic_cases hc with ⟨hself, hplain, hbackslash⟩ |
          ⟨e, u, heq, hspace, hfeed, hreturn, hread⟩
        · rw [hself, List.singleton_append,
            readMultilineBasic?_self (by simp [hplain]) hbackslash (fun h => absurd h hc), ih]
          rfl
        · rw [heq]
          exact (readMultilineBasic?_escape hspace hfeed hreturn (hread _)).trans (by rw [ih]; rfl)

/-! ### Literal strings on several lines -/

/-- A character that stands for itself, which a mark does if no two others follow. -/
theorem readMultilineLiteral?_self (hself : (isPlain c || c == '\n') = true)
    (hmarks : c = '\'' → ∀ v, u ≠ '\'' :: '\'' :: v) :
    readMultilineLiteral? (c :: u) = consRead c (readMultilineLiteral? u) := by
  have hreturn : c ≠ '\r' := by
    rintro rfl
    cases hself
  rw [readMultilineLiteral?.eq_4 _ _ (fun v hc hu => hmarks hc v hu) (fun _ hc _ => hreturn hc),
    if_pos hself]

/-- **Reading a literal string on several lines**, in which no three marks stand in a row. -/
theorem readMultilineLiteral?_append (hself : ∀ c ∈ t, (isPlain c || c == '\n') = true)
    (hruns : longestRun '\'' t ≤ 2) (hrest : rest.head? ≠ some '\'') :
    readMultilineLiteral? (t ++ '\'' :: '\'' :: '\'' :: rest) = some (t, rest) := by
  induction t with
  | nil => rw [List.nil_append, readMultilineLiteral?, closeMultiline_of_ne hrest]
  | cons c t ih =>
      obtain ⟨hc, hself⟩ := List.forall_mem_cons.mp hself
      have ih := ih hself (Nat.le_trans (longestRun_le_cons _ c t) hruns)
      by_cases hmarks : c = '\'' → ∀ v, t ++ '\'' :: '\'' :: '\'' :: rest ≠ '\'' :: '\'' :: v
      · rw [List.cons_append, readMultilineLiteral?_self hc hmarks, ih]
        rfl
      · -- the mark is one of the last two characters
        obtain ⟨rfl, hfollow⟩ := Classical.not_imp.mp hmarks
        obtain ⟨v, hv⟩ := Classical.not_forall_not.mp hfollow
        rcases t with _ | ⟨x, _ | ⟨y, t⟩⟩
        · rw [List.cons_append, List.nil_append, readMultilineLiteral?, closeMultiline_mark hrest]
        · obtain rfl : x = '\'' := (List.cons.inj hv).1
          rw [List.cons_append, List.cons_append, List.nil_append, readMultilineLiteral?,
            closeMultiline_marks]
        · obtain ⟨rfl, hnext⟩ := List.cons.inj hv
          obtain rfl : y = '\'' := (List.cons.inj hnext).1
          exact absurd hruns (Nat.not_le.mpr (three_le_longestRun '\'' t))

/-! ### The choice of a form -/

/-- The form can hold the text: what a literal form cannot escape is not in it. -/
def StringForm.Holds (t : Text) : StringForm → Prop
  | .basic | .multilineBasic => True
  | .literal => (∀ c ∈ t, isPlain c = true) ∧ '\'' ∉ t
  | .multilineLiteral => (∀ c ∈ t, (isPlain c || c == '\n') = true) ∧ longestRun '\'' t ≤ 2

/-- **The form chosen for a text can hold it.** -/
theorem StringForm.holds_of (t : Text) : (StringForm.of t).Holds t := by
  rw [StringForm.of]
  split
  · trivial
  split
  · next h =>
    simp only [Bool.and_eq_true, Bool.not_eq_true', decide_eq_true_eq, decide_eq_false_iff_not,
      List.any_eq_false] at h
    obtain ⟨⟨hcontrol, hmark⟩, hfeed⟩ := h
    refine ⟨fun c hc => isPlain_iff.mpr ⟨by simpa using hcontrol c hc, ?_⟩,
      notMem_of_longestRun_eq_zero hmark⟩
    rintro rfl
    exact hfeed hc
  split
  · trivial
  split
  · next h =>
    simp only [Bool.and_eq_true, Bool.not_eq_true', decide_eq_true_eq, List.any_eq_false] at h
    obtain ⟨hcontrol, hruns⟩ := h
    refine ⟨fun c hc => ?_, hruns⟩
    by_cases hfeed : c = '\n'
    · simp [hfeed]
    · simp [isPlain_iff.mpr ⟨by simpa using hcontrol c hc, hfeed⟩]
  split <;> trivial

/-! ### Any form -/

/-- The line end behind the opening marks is dropped, and nothing else is. -/
theorem dropNewline_openingBreak (h : '\n' ∉ t → ∃ c v, u = c :: v ∧ c ≠ '\n' ∧ c ≠ '\r') :
    dropNewline (openingBreak t ++ u) = u := by
  rw [openingBreak]
  split
  · rfl
  · next hfeed =>
    obtain ⟨c, v, rfl, hc, hc'⟩ := h hfeed
    exact dropNewline_of_ne hc hc' v

/-- Without a line feed in it, a basic string on several lines does not begin with a line end. -/
theorem multilineBody_append_front (rest : Text) (hfeed : '\n' ∉ t) :
    ∃ c v, multilineBody 0 t ++ '"' :: rest = c :: v ∧ c ≠ '\n' ∧ c ≠ '\r' := by
  cases t with
  | nil => exact ⟨'"', rest, rfl, by decide, by decide⟩
  | cons c t =>
      rw [multilineBody]
      split
      · exact ⟨'"', _, rfl, by decide, by decide⟩
      split
      · next hc =>
        subst hc
        exact absurd List.mem_cons_self hfeed
      · next hc hne =>
        rcases escapeBasic_cases hc with ⟨hself, hplain, -⟩ | ⟨e, u, heq, -⟩
        · exact ⟨c, _, by rw [hself]; rfl, hne, ne_return_of_isPlain hplain⟩
        · exact ⟨'\\', _, by rw [heq]; rfl, by decide, by decide⟩

/-- Without a line feed in it, a literal string on several lines does not begin with a line
end. -/
theorem literal_append_front (hself : ∀ c ∈ t, (isPlain c || c == '\n') = true) (rest : Text)
    (hfeed : '\n' ∉ t) : ∃ c v, t ++ '\'' :: rest = c :: v ∧ c ≠ '\n' ∧ c ≠ '\r' := by
  cases t with
  | nil => exact ⟨'\'', rest, rfl, by decide, by decide⟩
  | cons c t =>
      refine ⟨c, _, rfl, ?_, ?_⟩
      · rintro rfl
        exact hfeed List.mem_cons_self
      · rintro rfl
        cases hself _ List.mem_cons_self

/-- One mark opens a string on one line. -/
theorem readString?_basic (h : ∀ v, u ≠ '"' :: '"' :: v) :
    readString? ('"' :: u) = readBasic? u := by
  have hother : '"' ≠ '\'' := by decide
  rw [readString?.eq_3 ('"' :: u) (fun v heq => h v (List.cons.inj heq).2)
    (fun _ heq => hother (List.cons.inj heq).1), readLine?]

/-- One mark opens a string on one line. -/
theorem readString?_literal (h : ∀ v, u ≠ '\'' :: '\'' :: v) :
    readString? ('\'' :: u) = readLiteral? u := by
  have hother : '\'' ≠ '"' := by decide
  rw [readString?.eq_3 ('\'' :: u) (fun _ heq => hother (List.cons.inj heq).1)
    (fun v heq => h v (List.cons.inj heq).2), readLine?]

/-- No two marks stand behind the opening mark of a basic string. -/
theorem basicBody_append_ne (hrest : rest.head? ≠ some '"') (v : Text) :
    basicBody t ++ '"' :: rest ≠ '"' :: '"' :: v := by
  intro heq
  cases t with
  | nil =>
      obtain rfl : rest = '"' :: v := (List.cons.inj heq).2
      exact hrest rfl
  | cons c t =>
      rw [basicBody, List.flatMap_cons] at heq
      split at heq
      · exact absurd (List.cons.inj heq).1 (by decide)
      · next hc =>
        rcases escapeBasic_cases hc with ⟨hself, -, -⟩ | ⟨e, w, hescape, -⟩
        · rw [hself] at heq
          exact hc (List.cons.inj heq).1
        · rw [hescape] at heq
          exact absurd (List.cons.inj heq).1 (by decide)

/-- No two marks stand behind the opening mark of a literal string. -/
theorem literal_append_ne (hmark : '\'' ∉ t) (hrest : rest.head? ≠ some '\'') (v : Text) :
    t ++ '\'' :: rest ≠ '\'' :: '\'' :: v := by
  intro heq
  cases t with
  | nil =>
      obtain rfl : rest = '\'' :: v := (List.cons.inj heq).2
      exact hrest rfl
  | cons c t =>
      obtain rfl : c = '\'' := (List.cons.inj heq).1
      exact hmark List.mem_cons_self

/-- **A text that is written in a form that can hold it is read back.** -/
theorem StringForm.readString?_write {form : StringForm} (h : form.Holds t)
    (hbasic : rest.head? ≠ some '"') (hliteral : rest.head? ≠ some '\'') :
    readString? (form.write t ++ rest) = some (t, rest) := by
  cases form with
  | basic =>
      have hwrite : StringForm.basic.write t ++ rest = '"' :: (basicBody t ++ '"' :: rest) := by
        change '"' :: (basicBody t ++ ['"']) ++ rest = _
        simp
      rw [hwrite, readString?_basic (basicBody_append_ne hbasic), readBasic?_body]
  | literal =>
      have hwrite : StringForm.literal.write t ++ rest = '\'' :: (t ++ '\'' :: rest) := by
        change '\'' :: (t ++ ['\'']) ++ rest = _
        simp
      obtain ⟨hplain, hmark⟩ := h
      rw [hwrite, readString?_literal (literal_append_ne hmark hliteral),
        readLiteral?_append hplain hmark]
  | multilineBasic =>
      have hwrite : StringForm.multilineBasic.write t ++ rest = '"' :: '"' :: '"' ::
          (openingBreak t ++ (multilineBody 0 t ++ '"' :: '"' :: '"' :: rest)) := by
        change "\"\"\"".toList ++ openingBreak t ++ multilineBody 0 t ++ "\"\"\"".toList ++ rest = _
        simp
      rw [hwrite, readString?, dropNewline_openingBreak (multilineBody_append_front _),
        readMultilineBasic?_body hbasic]
  | multilineLiteral =>
      obtain ⟨hself, hruns⟩ := h
      have hwrite : StringForm.multilineLiteral.write t ++ rest = '\'' :: '\'' :: '\'' ::
          (openingBreak t ++ (t ++ '\'' :: '\'' :: '\'' :: rest)) := by
        change "'''".toList ++ openingBreak t ++ t ++ "'''".toList ++ rest = _
        simp
      rw [hwrite, readString?, dropNewline_openingBreak (literal_append_front hself _),
        readMultilineLiteral?_append hself hruns hliteral]

/-- **Writing a text and reading it back**, in front of anything but another mark. -/
theorem readString?_writeString (t : Text) (hbasic : rest.head? ≠ some '"')
    (hliteral : rest.head? ≠ some '\'') : readString? (writeString t ++ rest) = some (t, rest) :=
  StringForm.readString?_write (StringForm.holds_of t) hbasic hliteral

-- The last two marks of the text stand in front of the closing ones.
example : writeString "\n'\"\"".toList = "\"\"\"\n\n'\"\"\"\"\"".toList := by
  decide +kernel

end BoolQuery.Toml
