import BoolQuery.Proofs.Token.Operand

/-!
# White Space Around a Segment

White space in front of a segment or behind it does not change what the segment means. In front,
it moves the places of the segment on by its size; behind, it leaves them where they are.

## Main results

* `Dialect.splitField?_blank_append`, `Dialect.splitField?_append_blank`: white space belongs to the
  field specification or to the value.
* `Dialect.readSegment_blank_append`, `Dialect.readSegment_append_blank`: the token or the error of
  a segment with white space in front of it, and behind it.
-/

namespace BoolQuery

namespace Dialect

variable {d : Dialect} {seg w : Text} {p : Nat} {e : ParseError}

/-! ### White space in front -/

/-- White space in front belongs to the field specification, if there is one. -/
theorem splitField?_blank_append (hd : d.Sound) (hw : w.all Text.isBlank = true) (seg : Text) :
    d.splitField? (w ++ seg) = (d.splitField? seg).map fun cut => (w ++ cut.1, cut.2) := by
  have hpass : ∀ c ∈ w, (c != d.fieldDelimiter && c != d.quote) = true := by
    intro c hc
    simp only [Bool.and_eq_true, bne_iff_ne, ne_eq]
    exact ⟨fun h => hd.fieldDelimiter_notMem_of_blank hw (h ▸ hc),
      fun h => hd.quote_notMem_of_blank hw (h ▸ hc)⟩
  rw [splitField?, splitField?, List.dropWhile_append_of_pos hpass,
    List.takeWhile_append_of_pos hpass]
  split
  · rfl
  · split <;> rfl

/-- White space in front does not change the term. -/
theorem termOf_blank_append (hd : d.Sound) (hw : w.all Text.isBlank = true) (seg : Text) :
    d.termOf (w ++ seg) = d.termOf seg := by
  have hvalue : d.valueOf (w ++ seg) = d.valueOf seg := by
    rw [valueOf, valueOf, valuePart, valuePart, splitField?_blank_append hd hw]
    cases d.splitField? seg with
    | none => simp [Text.trim_blank_append hw]
    | some cut => rfl
  have hfield : d.fieldOf? (w ++ seg) = d.fieldOf? seg := by
    rw [fieldOf?, fieldOf?, splitField?_blank_append hd hw]
    cases d.splitField? seg with
    | none => rfl
    | some cut => simp [Text.trim_blank_append hw]
  rw [termOf, termOf, hvalue, hfield]

/-- White space in front moves the place of a fault. -/
theorem fieldFault?_blank_append (hd : d.Sound) (hw : w.all Text.isBlank = true) (seg : Text) :
    d.fieldFault? (w ++ seg) = (d.fieldFault? seg).map (Text.byteSize w + ·) := by
  rw [fieldFault?, fieldFault?, splitField?_blank_append hd hw]
  cases d.splitField? seg with
  | none => rfl
  | some cut =>
      obtain ⟨spec, value⟩ := cut
      simp only [Option.map_some, Text.trim_blank_append hw, Text.byteSize_append]
      split <;> rfl

/-- **White space in front of a segment** moves what it means. -/
theorem readSegment_blank_append (hd : d.Sound) (hw : w.all Text.isBlank = true) (p : Nat)
    (seg : Text) : d.readSegment p (w ++ seg) = d.readSegment (p + Text.byteSize w) seg := by
  have hout : d.Outside (w ++ seg) ↔ d.Outside seg :=
    (outside_of_notMem (hd.quote_notMem_of_blank hw)).append_iff
  rw [readSegment, readSegment, fieldFault?_blank_append hd hw]
  cases d.fieldFault? seg with
  | some n => simp [Nat.add_assoc]
  | none =>
      simp only [Option.map_none, hout, Operand.firstPlace?_append, if_pos hw,
        termOf_blank_append hd hw]
      split
      · rfl
      · next hodd =>
        rw [beforeLastQuote_append_of_mem (quote_mem_of_not_outside hodd), Text.byteSize_append,
          Nat.add_assoc]

/-! ### White space behind -/

/-- White space behind belongs to the value, if there is a field specification. -/
theorem splitField?_append_blank (hd : d.Sound) (hw : w.all Text.isBlank = true) (seg : Text) :
    d.splitField? (seg ++ w) = (d.splitField? seg).map fun cut => (cut.1, cut.2 ++ w) := by
  cases hsplit : d.splitField? seg with
  | some cut => exact splitField?_append hsplit w
  | none =>
      by_cases hquote : d.quote ∈ seg
      · exact splitField?_append_of_mem hd hsplit hquote w
      · refine splitField?_eq_none_of_notMem fun hmem => ?_
        rcases List.mem_append.mp hmem with hseg | hblank
        · exact fieldDelimiter_notMem_of_splitField?_eq_none hsplit hquote hseg
        · exact hd.fieldDelimiter_notMem_of_blank hw hblank

/-- White space behind does not change the term. -/
theorem termOf_append_blank (hd : d.Sound) (hw : w.all Text.isBlank = true) (seg : Text) :
    d.termOf (seg ++ w) = d.termOf seg := by
  have hvalue : d.valueOf (seg ++ w) = d.valueOf seg := by
    rw [valueOf, valueOf, valuePart, valuePart, splitField?_append_blank hd hw]
    cases d.splitField? seg with
    | none => simp [Text.trim_append_blank hw]
    | some cut => simp [Text.trim_append_blank hw]
  have hfield : d.fieldOf? (seg ++ w) = d.fieldOf? seg := by
    rw [fieldOf?, fieldOf?, splitField?_append_blank hd hw]
    cases d.splitField? seg <;> rfl
  rw [termOf, termOf, hvalue, hfield]

/-- White space behind is no value, so a field is at fault with it if it is without it. -/
theorem fieldFault?_append_blank (hd : d.Sound) (hw : w.all Text.isBlank = true) (seg : Text) :
    d.fieldFault? (seg ++ w) = d.fieldFault? seg := by
  rw [fieldFault?, fieldFault?, splitField?_append_blank hd hw]
  cases d.splitField? seg with
  | none => rfl
  | some cut => simp [hw]

/-- **White space behind a segment** does not change what it means. -/
theorem readSegment_append_blank (hd : d.Sound) (hw : w.all Text.isBlank = true) (p : Nat)
    (seg : Text) : d.readSegment p (seg ++ w) = d.readSegment p seg := by
  have hquote := hd.quote_notMem_of_blank hw
  have hout : d.Outside (seg ++ w) ↔ d.Outside seg := outside_append_of_notMem hquote
  have hplace : firstPlace? p (seg ++ w) = firstPlace? p seg := by
    rw [Operand.firstPlace?_append]
    split
    · next hblank => simp [firstPlace?, hblank, hw]
    · rfl
  rw [readSegment, readSegment, fieldFault?_append_blank hd hw]
  cases d.fieldFault? seg with
  | some n => rfl
  | none =>
      simp only [hout, hplace, termOf_append_blank hd hw]
      split
      · rfl
      · next hodd =>
        obtain ⟨front, after, rfl, hafter⟩ := exists_last_quote (quote_mem_of_not_outside hodd)
        have hnone : d.quote ∉ after ++ w := by simp [hafter, hquote]
        rw [List.append_assoc, List.cons_append, beforeLastQuote_append hafter,
          beforeLastQuote_append hnone]

/-! ### Errors of a segment -/

/-- The error of a segment is at one of its characters, and names it. -/
theorem readSegment_eq_error (h : d.readSegment p seg = .error e) :
    (p ≤ e.position ∧ e.position < p + Text.byteSize seg) ∧ ∃ c, e.character = some c := by
  have hinside : ∀ (front after : Text) (c : Char), seg = front ++ c :: after →
      p ≤ p + Text.byteSize front ∧ p + Text.byteSize front < p + Text.byteSize seg := by
    rintro front after c rfl
    have := c.utf8Size_pos
    simp only [Text.byteSize_append, Text.byteSize_cons]
    omega
  rw [readSegment] at h
  split at h
  · next n hfault =>
    obtain rfl := Except.error.inj h
    obtain ⟨spec, value, hseg, rfl⟩ := exists_of_fieldFault?_eq_some hfault
    exact ⟨hinside spec value _ hseg, _, rfl⟩
  · split at h
    · cases h
    · next hodd =>
      obtain rfl := Except.error.inj h
      obtain ⟨front, after, hseg, hafter⟩ := exists_last_quote (quote_mem_of_not_outside hodd)
      have hlast : d.beforeLastQuote seg = front := by rw [hseg, beforeLastQuote_append hafter]
      exact ⟨hlast ▸ hinside front after _ hseg, _, rfl⟩

end Dialect

end BoolQuery
