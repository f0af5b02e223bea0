import BoolQuery.Proofs.Alike
import BoolQuery.Proofs.Token.Scan

/-!
# Two Scans Side by Side

Two scans are compared that go on over the same text, after one of them has read a text `x` in
quotes and the other a text `y`. From there on they take the same turns: what has been quoted is
kept, but it is not looked at. So the tokens that they find differ in one term, of which the
value has `x` in the one scan where it has `y` in the other, and in their places. How places
are related does not matter to the scan: it is given by a relation `P`.

## Main definitions

* `Text.Swapped`: texts that differ in one place at most, where one has `x` and the other `y`.
* `Token.Swapped`, `Token.RowSwapped`: the same for tokens and rows of tokens.
* `Operand.Swapped`, `Scanner.Swapped`: the same for operands and for states of the scan.
* `ParseError.Shifted`: errors that differ only in their places.

## Main results

* `Scanner.step_swapped`: two turns at the same character.
* `Scanner.run_swapped`: two scans over the same text.
-/

namespace BoolQuery

variable {P : Nat → Nat → Prop} {x y : Text} {n m : Nat}

/-! ### What is related -/

/-- The texts are the same, but for `n` places where the one has `x` and the other has `y`.
There is one such place at most. -/
inductive Text.Swapped (x y : Text) : (n : Nat) → Text → Text → Prop
  | same (t : Text) : Swapped x y 0 t t
  | swap (u v : Text) : Swapped x y 1 (u ++ x ++ v) (u ++ y ++ v)

/-- The kinds are the same, but for the value of a term. -/
inductive TokenKind.Swapped (x y : Text) : (n : Nat) → TokenKind → TokenKind → Prop
  | same (kind : TokenKind) : Swapped x y 0 kind kind
  | term {n : Nat} {v v' : Text} (t : Term) : Text.Swapped x y n v v' →
      Swapped x y n (.term { t with value := v }) (.term { t with value := v' })

/-- The tokens are the same, but for the value of a term, and for their places. -/
structure Token.Swapped (P : Nat → Nat → Prop) (x y : Text) (n : Nat) (t t' : Token) : Prop where
  /-- What they are. -/
  kind : t.kind.Swapped x y n t'.kind
  /-- Their places. -/
  position : P t.position t'.position

/-- The tokens of the two rows are the same, one by one, but for `n` values and for their
places. -/
inductive Token.RowSwapped (P : Nat → Nat → Prop) (x y : Text) :
    (n : Nat) → List Token → List Token → Prop
  | nil : RowSwapped P x y 0 [] []
  | cons {n m : Nat} {t t' : Token} {ts ts' : List Token} :
      t.Swapped P x y n t' → RowSwapped P x y m ts ts' →
      RowSwapped P x y (n + m) (t :: ts) (t' :: ts')

/-- The errors say the same about two places. -/
structure ParseError.Shifted (P : Nat → Nat → Prop) (e e' : ParseError) : Prop where
  /-- What is wrong. -/
  fault : e.fault = e'.fault
  /-- The places. -/
  position : P e.position e'.position
  /-- The character there. -/
  character : e.character = e'.character

/-- Texts that differ nowhere are the same. -/
theorem Text.Swapped.eq {u u' : Text} (h : Text.Swapped x y 0 u u') : u = u' := by
  cases h
  rfl

/-- A text that goes on the same. -/
theorem Text.Swapped.append {u u' : Text} (h : Text.Swapped x y n u u') (t : Text) :
    Text.Swapped x y n (u ++ t) (u' ++ t) := by
  cases h with
  | same => exact .same _
  | swap u v =>
      rw [List.append_assoc _ v, List.append_assoc _ v]
      exact .swap u (v ++ t)

namespace Token.RowSwapped

variable {ts ts' us us' : List Token}

/-- One row after the other. -/
theorem append (h : RowSwapped P x y n ts ts') (h' : RowSwapped P x y m us us') :
    RowSwapped P x y (n + m) (ts ++ us) (ts' ++ us') := by
  induction h with
  | nil => simpa using h'
  | cons ht _ ih =>
      rw [Nat.add_assoc]
      exact .cons ht ih

/-- A row of one token. -/
theorem singleton {t t' : Token} (h : t.Swapped P x y n t') : RowSwapped P x y n [t] [t'] :=
  .cons h .nil

/-- The rows backwards. -/
theorem reverse (h : RowSwapped P x y n ts ts') :
    RowSwapped P x y n ts.reverse ts'.reverse := by
  induction h with
  | nil => exact .nil
  | cons ht _ ih =>
      rw [List.reverse_cons, List.reverse_cons, Nat.add_comm]
      exact ih.append (.singleton ht)

end Token.RowSwapped

/-! ### The operand being read -/

namespace Operand

variable {d : Dialect} {o o' : Operand} {p p' : Nat} {content : Text}

/-- What is kept of two operands is the same, but for `n` places in quoted parts and for the
places in the query. -/
structure Swapped (P : Nat → Nat → Prop) (x y : Text) (n : Nat) (o o' : Operand) : Prop where
  /-- The text up to the last closing quote. -/
  kept : Text.Swapped x y n o.kept.reverse o'.kept.reverse
  /-- The text after it. -/
  loose : o.loose = o'.loose
  /-- The places of the first characters. -/
  start : Option.Rel P o.start o'.start
  /-- Whether there is a quoted part. -/
  quoted : o.quoted = o'.quoted
  /-- The field specification, and the places of its delimiter. -/
  field : Option.Rel (fun f f' => f.1 = f'.1 ∧ P f.2 f'.2) o.field o'.field
  /-- Texts differ only in a quoted part, and this is a part of an operand that has begun. -/
  begun : n = 0 ∨ o.quoted = true ∧ o.start.isSome = true

namespace Swapped

/-- The empty operand. -/
theorem empty : Swapped P x y 0 {} {} where
  kept := .same []
  loose := rfl
  start := .none
  quoted := rfl
  field := .none
  begun := .inl rfl

/-- What is kept is the same without a quoted part. -/
theorem kept_eq (h : o.Swapped P x y n o') (hquoted : o.quoted = false) : o.kept = o'.kept := by
  obtain rfl : n = 0 := by simpa [hquoted] using h.begun
  exact List.reverse_injective h.kept.eq

/-- An operand begins at related places. -/
theorem start_getD (h : o.Swapped P x y n o') (hp : P p p') :
    P (o.start.getD p) (o'.start.getD p') := by
  have hstart := h.start
  generalize o.start = start at hstart
  generalize o'.start = start' at hstart
  cases hstart with
  | none => exact hp
  | some h => exact h

/-- The same character is added, or dropped. -/
theorem push (h : o.Swapped P x y n o') (hp : P p p') (c : Char) :
    (o.push p c).Swapped P x y n (o'.push p' c) := by
  have hcond : (Text.isBlank c && o.loose.isEmpty && o.kept.isEmpty && !o.quoted)
      = (Text.isBlank c && o'.loose.isEmpty && o'.kept.isEmpty && !o'.quoted) := by
    rw [← h.quoted, ← h.loose]
    cases hquoted : o.quoted with
    | true => simp
    | false => rw [h.kept_eq hquoted]
  rw [Operand.push, Operand.push, ← hcond]
  split
  · exact h
  · exact ⟨h.kept, congrArg (c :: ·) h.loose, .some (h.start_getD hp), h.quoted, h.field,
      h.begun.imp_right fun hbegun => ⟨hbegun.1, rfl⟩⟩

/-- The same quoted part is added. -/
theorem pushQuoted (h : o.Swapped P x y n o') (hp : P p p') (content : Text) :
    (o.pushQuoted p content).Swapped P x y n (o'.pushQuoted p' content) where
  kept := by
    have hkept := h.kept.append (o.loose.reverse ++ content)
    conv at hkept => rhs; rw [h.loose]
    simpa [Operand.pushQuoted] using hkept
  loose := rfl
  start := .some (h.start_getD hp)
  quoted := rfl
  field := h.field
  begun := .inr ⟨rfl, rfl⟩

/-- **Different quoted parts are added to the same operand.** -/
theorem pushQuoted_swap (h : o.Swapped P x y 0 o) (hp : P p p) :
    (o.pushQuoted p x).Swapped P x y 1 (o.pushQuoted p y) where
  kept := by
    simpa [Operand.pushQuoted] using Text.Swapped.swap (o.kept.reverse ++ o.loose.reverse) []
  loose := rfl
  start := .some (h.start_getD hp)
  quoted := rfl
  field := h.field
  begun := .inr ⟨rfl, rfl⟩

/-- The trimmed texts differ as what is kept does. -/
theorem trimmed (h : o.Swapped P x y n o') : Text.Swapped x y n o.trimmed o'.trimmed := by
  have htrimmed := h.kept.append (o.loose.dropWhile Text.isBlank).reverse
  conv at htrimmed => rhs; rw [h.loose]
  simpa [Operand.trimmed] using htrimmed

/-- A delimiter ends a field specification in both or in neither. -/
theorem acceptsField (h : o.Swapped P x y n o') : o.acceptsField = o'.acceptsField := by
  have hfield := h.field
  rw [Operand.acceptsField, Operand.acceptsField, h.quoted]
  generalize o.field = field at hfield
  generalize o'.field = field' at hfield
  cases hfield <;> rfl

/-- A field specification has no quoted part, so it is the same. -/
theorem startField (h : o.Swapped P x y n o') (haccept : o.acceptsField = true) (hp : P p p') :
    Alike (ParseError.Shifted P) (Operand.Swapped P x y n) (o.startField d p)
      (o'.startField d p') := by
  have hquoted : o.quoted = false := by
    simp only [Operand.acceptsField, Bool.and_eq_true, Bool.not_eq_true'] at haccept
    exact haccept.2
  obtain rfl : n = 0 := by simpa [hquoted] using h.begun
  have htrimmed := h.trimmed.eq
  rw [Operand.startField, Operand.startField, ← htrimmed]
  cases FieldSpec.ofText? d o.trimmed with
  | none => exact .error ⟨rfl, hp, rfl⟩
  | some field =>
      exact .ok ⟨.same [], rfl, .some (h.start_getD hp), h.quoted, .some ⟨rfl, hp⟩, .inl rfl⟩

/-- **The ends of the operands** give tokens that differ as the operands do, or the same error. -/
theorem token? (h : o.Swapped P x y n o') :
    Alike (ParseError.Shifted P) (fun t t' => Token.RowSwapped P x y n t.toList t'.toList)
      (o.token? d) (o'.token? d) := by
  have htrimmed := h.trimmed
  have hempty : (o.trimmed.isEmpty && !o.quoted) = (o'.trimmed.isEmpty && !o'.quoted) := by
    rw [← h.quoted]
    cases hquoted : o.quoted with
    | true => simp
    | false =>
        obtain rfl : n = 0 := by simpa [hquoted] using h.begun
        rw [htrimmed.eq]
  rw [Operand.token?, Operand.token?, ← hempty]
  have hstart := h.start
  have hfield := h.field
  have hbegun := h.begun
  generalize o.start = start at hstart hbegun
  generalize o'.start = start' at hstart
  generalize o.field = field at hfield
  generalize o'.field = field' at hfield
  cases hstart with
  | none =>
      obtain rfl : n = 0 := by simpa using hbegun
      exact .ok .nil
  | some hplace =>
      cases hfield with
      | none => exact .ok (.singleton ⟨.term { value := [] } htrimmed, hplace⟩)
      | @some f f' hf =>
          obtain ⟨spec, place⟩ := f
          obtain ⟨spec', place'⟩ := f'
          obtain ⟨rfl, hdelim⟩ := hf
          simp only
          split
          · exact .error ⟨rfl, hdelim, rfl⟩
          · exact .ok (.singleton
              ⟨.term ⟨[], some spec.name, spec.operator, spec.modifier⟩ htrimmed, hplace⟩)

end Swapped

end Operand

/-! ### The scan -/

namespace Scanner

variable {d : Dialect} {s s' : Scanner} {c : Char} {rest : Text}

/-- The states differ in `n` places, which are in the operands or in the tokens found. -/
structure Swapped (P : Nat → Nat → Prop) (x y : Text) (n : Nat) (s s' : Scanner) : Prop where
  /-- Whether a keyword may stand here. -/
  atWordStart : s.atWordStart = s'.atWordStart
  /-- The operands and the tokens found. -/
  split : ∃ k m, s.operand.Swapped P x y k s'.operand ∧
    Token.RowSwapped P x y m s.found s'.found ∧ k + m = n

/-- The states `r` and `r'` come from `s` and `s'` by passing over `size` bytes. -/
structure Moved (P : Nat → Nat → Prop) (x y : Text) (n : Nat) (s s' : Scanner) (size : Nat)
    (r r' : Scanner) : Prop where
  /-- They differ as before. -/
  swapped : r.Swapped P x y n r'
  /-- The place of the one. -/
  left : r.offset = s.offset + size
  /-- The place of the other. -/
  right : r'.offset = s'.offset + size

/-- Both turns of two scans at the character `c`, in front of `rest`, leave the same text. -/
structure Turned (P : Nat → Nat → Prop) (x y : Text) (n : Nat) (s s' : Scanner) (c : Char)
    (rest : Text) (r r' : Scanner × Text) : Prop where
  /-- The text that is left. -/
  after : r.2 = r'.2
  /-- What has been passed over. -/
  moved : ∃ size, Text.byteSize (c :: rest) = size + Text.byteSize r.2 ∧
    Moved P x y n s s' size r.1 r'.1

namespace Swapped

/-- The ends of the operands. -/
theorem finishOperand (h : s.Swapped P x y n s') :
    Alike (ParseError.Shifted P)
      (fun r r' => ∃ ts ts', r = { s with operand := {}, found := ts } ∧
        r' = { s' with operand := {}, found := ts' } ∧ Token.RowSwapped P x y n ts ts')
      (s.finishOperand d) (s'.finishOperand d) := by
  obtain ⟨k, m, hoperand, hfound, rfl⟩ := h.split
  have htoken := hoperand.token? (d := d)
  rw [Scanner.finishOperand, Scanner.finishOperand]
  generalize s.operand.token? d = t at htoken
  generalize s'.operand.token? d = t' at htoken
  cases htoken with
  | error he => exact .error he
  | ok ht => exact .ok ⟨_, _, rfl, rfl, ht.append hfound⟩

/-- The same mark is passed over. -/
theorem passToken (h : s.Swapped P x y n s') (hp : P s.offset s'.offset) (kind : TokenKind)
    (size : Nat) :
    Alike (ParseError.Shifted P) (Moved P x y n s s' size) (s.passToken d kind size)
      (s'.passToken d kind size) := by
  have hfinish := h.finishOperand (d := d)
  rw [Scanner.passToken, Scanner.passToken]
  generalize s.finishOperand d = r at hfinish
  generalize s'.finishOperand d = r' at hfinish
  cases hfinish with
  | error he => exact .error he
  | ok hr =>
      obtain ⟨ts, ts', rfl, rfl, hts⟩ := hr
      have hrow : Token.RowSwapped P x y (0 + n) (⟨kind, s.offset⟩ :: ts)
          (⟨kind, s'.offset⟩ :: ts') := .cons ⟨.same kind, hp⟩ hts
      exact .ok ⟨⟨rfl, 0, 0 + n, .empty, hrow, by simp⟩, rfl, rfl⟩

/-- The same quoted part is passed over, or does not end in both. -/
theorem passQuoted (h : s.Swapped P x y n s') (hp : P s.offset s'.offset) (rest : Text) :
    Alike (ParseError.Shifted P) (Turned P x y n s s' d.quote rest) (s.passQuoted d rest)
      (s'.passQuoted d rest) := by
  obtain ⟨k, m, hoperand, hfound, rfl⟩ := h.split
  have hrest := List.takeWhile_append_dropWhile (p := fun c => c != d.quote) (l := rest)
  rw [Scanner.passQuoted, Scanner.passQuoted]
  cases hdrop : rest.dropWhile fun c => c != d.quote with
  | nil => exact .error ⟨rfl, hp, rfl⟩
  | cons close after =>
      have hsize : Text.byteSize (d.quote :: rest) = d.quote.utf8Size
          + Text.byteSize (rest.takeWhile fun c => c != d.quote) + close.utf8Size
          + Text.byteSize after := by
        conv_lhs => rw [← hrest, hdrop]
        simp only [Text.byteSize_append, Text.byteSize_cons]
        omega
      refine .ok ⟨rfl, _, hsize, ⟨rfl, k, m, hoperand.pushQuoted hp _, hfound, rfl⟩, ?_, ?_⟩
      · simp only [Nat.add_assoc]
      · simp only [Nat.add_assoc]

/-- **Two turns at the same character**: the scans do the same, or fail alike. -/
theorem step (h : s.Swapped P x y n s') (hp : P s.offset s'.offset) (c : Char) (rest : Text) :
    Alike (ParseError.Shifted P) (Turned P x y n s s' c rest) (s.step d c rest)
      (s'.step d c rest) := by
  rw [Scanner.step, Scanner.step]
  by_cases hquote : c = d.quote
  · subst hquote
    rw [if_pos rfl, if_pos rfl]
    exact h.passQuoted hp rest
  rw [if_neg hquote, if_neg hquote, ← h.atWordStart]
  split
  · exact (h.passToken hp _ _).map fun r r' hr => ⟨rfl, _, by simp, hr⟩
  cases hkey : if s.atWordStart = true then d.keywordAt? (c :: rest) else none with
  | some found =>
      obtain ⟨op, after⟩ := found
      have hop : d.keywordAt? (c :: rest) = some (op, after) := by
        split at hkey
        · exact hkey
        · cases hkey
      obtain ⟨-, heq, -⟩ :=
        Dialect.afterKeyword?_eq_some_iff.mp (Dialect.afterKeyword?_of_keywordAt? hop)
      exact (h.passToken hp _ _).map fun r r' hr =>
        ⟨rfl, _, by rw [heq, Text.byteSize_append], hr⟩
  | none =>
      obtain ⟨k, m, hoperand, hfound, rfl⟩ := h.split
      simp only [← hoperand.acceptsField]
      split
      · next hfield =>
        have haccept : s.operand.acceptsField = true := by
          simp only [Bool.and_eq_true] at hfield
          exact hfield.2
        exact (hoperand.startField haccept hp).map fun o o' ho =>
          ⟨rfl, _, by simp, ⟨rfl, k, m, ho, hfound, rfl⟩, rfl, rfl⟩
      · exact .ok ⟨rfl, _, by simp, ⟨rfl, k, m, hoperand.push hp c, hfound, rfl⟩, rfl, rfl⟩

/-- **Two scans over the same text** find tokens that differ as the states do, or fail alike.
Induction on the text that is left. -/
theorem run (h : s.Swapped P x y n s') (hp : ∀ k, P (s.offset + k) (s'.offset + k)) (t : Text) :
    Alike (ParseError.Shifted P) (fun r r' => Token.RowSwapped P x y n r.found r'.found)
      (s.run d t) (s'.run d t) := by
  induction hlen : t.length using Nat.strong_induction_on generalizing s s' t with
  | _ len ih =>
    subst hlen
    cases t with
    | nil =>
        rw [Scanner.run, Scanner.run]
        refine h.finishOperand.mono (fun _ _ he => he) ?_
        rintro _ _ ⟨ts, ts', rfl, rfl, hts⟩
        exact hts
    | cons c rest =>
        rw [run_cons, run_cons]
        refine (h.step (d := d) (hp 0) c rest).with_eq.bind fun r r' hr => ?_
        obtain ⟨⟨hafter, size, -, hmoved⟩, hstep, -⟩ := hr
        have hlt : r.2.length < (c :: rest).length := Nat.lt_succ_of_le (length_le_of_step hstep)
        rw [← hafter]
        refine ih _ hlt hmoved.swapped (fun k => ?_) r.2 rfl
        rw [hmoved.left, hmoved.right, Nat.add_assoc, Nat.add_assoc]
        exact hp (size + k)

end Swapped

end Scanner

end BoolQuery
