import BoolQuery.Proofs.Query.Alike
import BoolQuery.Proofs.Text.Place
import BoolQuery.Proofs.Token.Faults

/-!
# Errors and Their Places

Whatever step of reading a query fails, its error points at a character of the query: the place
is where the character begins, and the character that the error names, if it names one, is
that one. The bracket check and the scan know the character. The postfix pass and the fold
only know tokens, which begin at characters of the query. When the error is shown in the query,
the character is filled in, and the caret under it comes behind as many columns as there are
characters before it.

## Main definitions

* `ParseError.PointsInto`: the error points at a character of the query.
* `ParseError.Pinned`: it does, it names the character, and it carries the query.

## Main results

* `parse_eq_error_iff`: which errors reading a query may end in.
* `checkBalance_pointsInto`, `tokenize_pinned`, `buildTree_pointsInto`: the errors of each step
  point at characters.
* `error_place`: where an error is shown.
-/

namespace BoolQuery

open Dialect

variable {d : Dialect} {q : Text} {e : ParseError} {ts : List Token}

/-- Advice is a single line. -/
theorem ParseFault.newline_notMem_hint (fault : ParseFault) : '\n' ∉ fault.hint := by
  cases fault <;> decide +kernel

namespace ParseError

/-- The error points at a character of the query `q`, and names no other one. -/
def PointsInto (q : Text) (e : ParseError) : Prop :=
  ∃ before c after, q = before ++ c :: after ∧ e.position = Text.byteSize before ∧
    (e.character = none ∨ e.character = some c)

/-- The error carries the query `q`, points at a character of it, and names it. -/
def Pinned (q : Text) (e : ParseError) : Prop :=
  ∃ before c after, q = before ++ c :: after ∧ e.position = Text.byteSize before ∧
    e.character = some c ∧ e.query = q

/-- An error that is shown in the query names the character it points at. -/
theorem PointsInto.inQuery (h : e.PointsInto q) : (e.inQuery q).Pinned q := by
  obtain ⟨before, c, after, rfl, hposition, hcharacter⟩ := h
  refine ⟨before, c, after, rfl, hposition, ?_, rfl⟩
  rw [ParseError.inQuery, hposition, Text.charAt?_byteSize]
  rcases hcharacter with hnone | hsome
  · simp [hnone]
  · simp [hsome]

/-- The line of the caret in a report is indented like the query, and then by the column. -/
theorem report_eq (e : ParseError) :
    e.report = "query syntax error: ".toList ++ e.fault.message ++ "\n  ".toList ++ e.query
      ++ "\n".toList ++ List.replicate (2 + e.column) ' ' ++ "^\nhint: ".toList
      ++ e.fault.hint := by
  have hindent : ∀ head : Text, head ++ "\n  ".toList ++ List.replicate e.column ' '
      = head ++ "\n".toList ++ List.replicate (2 + e.column) ' ' := by
    intro head
    rw [← List.replicate_append_replicate, ← List.append_assoc,
      List.append_assoc head "\n".toList]
    rfl
  rw [← hindent]
  rfl

end ParseError

/-! ### Which errors there are -/

/-- The errors of a result that is shown in a query are its errors, shown in the query. -/
theorem inQuery_eq_error_iff {α : Type} {r : Except ParseError α} :
    inQuery q r = .error e ↔ ∃ bare, r = .error bare ∧ e = bare.inQuery q := by
  rw [inQuery]
  cases r <;> simp [Except.mapError, eq_comm]

/-- **The error of a query** is that of the bracket check, or else that of the scan, or else an
error that the tokens make for. -/
theorem parse_eq_error_iff : d.parse q = .error e ↔
    d.validate q = .error e ∨ d.validate q = .ok () ∧ (d.tokenize q = .error e ∨
      ∃ ts, d.tokenize q = .ok ts ∧
        ∃ bare, (toPostfix ts >>= buildTree) = .error bare ∧ e = bare.inQuery q) := by
  simp only [parse, validate, tokenize, inQuery_eq_error_iff, inQuery_eq_ok_iff, bind_eq_error_iff]
  constructor
  · rintro ⟨bare, hbalance | ⟨⟨⟩, hbalance, hscan | ⟨ts, hts, hrest⟩⟩, rfl⟩
    · exact .inl ⟨bare, hbalance, rfl⟩
    · exact .inr ⟨hbalance, .inl ⟨bare, hscan, rfl⟩⟩
    · exact .inr ⟨hbalance, .inr ⟨ts, hts, bare, hrest, rfl⟩⟩
  · rintro (⟨bare, hbalance, rfl⟩ | ⟨hbalance, ⟨bare, hscan, rfl⟩ | ⟨ts, hts, bare, hrest, rfl⟩⟩)
    · exact ⟨bare, .inl hbalance, rfl⟩
    · exact ⟨bare, .inr ⟨(), hbalance, .inl hscan⟩, rfl⟩
    · exact ⟨bare, .inr ⟨(), hbalance, .inr ⟨ts, hts, hrest⟩⟩, rfl⟩

/-! ### The bracket check -/

/-- **The errors of the bracket check point at brackets of the query.** -/
theorem checkBalance_pointsInto (h : checkBalance d q = .error e) : e.PointsInto q := by
  have hself : Alike (fun e _ => e.PointsInto q) (fun _ _ => True) (checkBalance d q)
      (checkBalance d q) :=
    checkBalance_like fun front c after hq fault _ => ⟨front, c, after, hq, rfl, .inr rfl⟩
  obtain ⟨-, -, hpoints⟩ := hself.exists_error h
  exact hpoints

/-! ### The scan -/

/-- **The errors of the scan point at a field delimiter or at a quote.** -/
theorem tokenize_pinned (hd : d.Sound) (h : d.tokenize q = .error e) : e.Pinned q := by
  rcases (tokenize_eq_error_iff hd).mp h with ⟨before, seg, n, hseg, hfault, -, rfl⟩ |
    ⟨-, hout, rfl⟩
  · obtain ⟨after, rfl, -⟩ := hseg
    obtain ⟨spec, value, rfl, rfl⟩ := exists_of_fieldFault?_eq_some hfault
    exact ⟨before ++ spec, d.fieldDelimiter, value ++ after, by simp, by simp, rfl, rfl⟩
  · obtain ⟨front, after, rfl, hafter⟩ := exists_last_quote (quote_mem_of_not_outside hout)
    exact ⟨front, d.quote, after, rfl, by rw [beforeLastQuote_append hafter], rfl, rfl⟩

/-- **Tokens begin at characters of the query.** -/
theorem exists_place_of_mem_tokenize (hd : d.Sound) (h : d.tokenize q = .ok ts) {t : Token}
    (ht : t ∈ ts) : ∃ before c after, q = before ++ c :: after ∧
      t.position = Text.byteSize before := by
  obtain ⟨l, hl, rfl, hscan⟩ := exists_layout hd q
  rw [tokenize_eq_ok_iff, hscan] at h
  rcases (Layout.mem_tokens_iff h).mp ht with ⟨x, tail, htail, hread⟩ |
    ⟨x, seg, kind, lexeme, more, htail, rfl⟩
  · obtain ⟨-, -, hterm⟩ := readSegment_eq_ok_iff.mp hread
    obtain ⟨place, hplace, rfl⟩ := Option.map_eq_some_iff.mp hterm.symm
    obtain ⟨lead, c, rest, hfirst, rfl⟩ := exists_of_firstPlace?_eq_some hplace
    obtain ⟨after, htext, -⟩ := (htail.valid hl).first
    exact ⟨x ++ lead, c, rest ++ after, by simp [htail.text, htext, hfirst], by simp⟩
  · cases htail.valid hl with
    | mark _ hmark _ =>
        obtain ⟨c, rest, rfl⟩ := List.exists_cons_of_ne_nil (hd.ne_nil_of_markAt hmark)
        exact ⟨x ++ seg, c, rest ++ more.text, by simp [htail.text, Layout.text], by simp⟩

/-! ### The postfix pass and the fold -/

/-- **The errors that tokens make for point at tokens.** -/
theorem buildTree_pointsInto (hd : d.Sound) (hts : d.tokenize q = .ok ts)
    (h : (toPostfix ts >>= buildTree) = .error e) : e.PointsInto q := by
  have hself : List.Forall₂ (Token.Like (fun e _ => e.PointsInto q) fun _ _ => True) ts ts := by
    refine List.forall₂_same.mpr fun t ht => ⟨?_, fun fault => ?_⟩
    · cases t.kind with
      | term => exact .term trivial
      | operator op => exact .operator op
      | openGroup => exact .openGroup
      | closeGroup => exact .closeGroup
    · obtain ⟨before, c, after, hq, hposition⟩ := exists_place_of_mem_tokenize hd hts ht
      exact ⟨before, c, after, hq, hposition, .inl rfl⟩
  have hrun := toPostfix_buildTree_like hself
  rw [h] at hrun
  cases hrun with
  | error hpoints => exact hpoints

/-! ### Errors of a query -/

/-- **Every error of a query is pinned to a character of it.** -/
theorem pinned_of_error (hd : d.Sound)
    (h : d.parse q = .error e ∨ d.tokenize q = .error e ∨ d.validate q = .error e) :
    e.Pinned q := by
  have hvalidate : ∀ e, d.validate q = .error e → e.Pinned q := by
    intro e h
    obtain ⟨bare, hbare, rfl⟩ := inQuery_eq_error_iff.mp h
    exact (checkBalance_pointsInto hbare).inQuery
  rcases h with hparse | htokenize | hbalance
  · rcases parse_eq_error_iff.mp hparse with hbalance | ⟨-, hscan | ⟨ts, hts, bare, hbare, rfl⟩⟩
    · exact hvalidate e hbalance
    · exact tokenize_pinned hd hscan
    · exact (buildTree_pointsInto hd hts hbare).inQuery
  · exact tokenize_pinned hd htokenize
  · exact hvalidate e hbalance

/-- **Where an error is shown.** The place of an error, from whatever step of reading a query, is
that of a character of the query, before its end. The error names this character and carries the
query. In its report, the last line but one has the caret, behind two spaces and as many more as
the query has characters before the place. -/
theorem error_place (hd : d.check = .ok ())
    (h : d.parse q = .error e ∨ d.tokenize q = .error e ∨ d.validate q = .error e) :
    ∃ before c after, q = before ++ c :: after ∧ e.position = Text.byteSize before ∧
      e.position < Text.byteSize q ∧ q.charAt? e.position = some c ∧ e.character = some c ∧
      e.query = q ∧ '\n' ∉ e.fault.hint ∧
      e.report = "query syntax error: ".toList ++ e.fault.message ++ "\n  ".toList ++ q
        ++ "\n".toList ++ List.replicate (2 + before.length) ' ' ++ "^\nhint: ".toList
        ++ e.fault.hint := by
  obtain ⟨before, c, after, rfl, hposition, hcharacter, hquery⟩ :=
    pinned_of_error (check_eq_ok_iff.mp hd) h
  have hcolumn : e.column = before.length := by
    rw [ParseError.column, hquery, hposition, Text.column?_byteSize]
    rfl
  have hlt : Text.byteSize before < Text.byteSize (before ++ c :: after) := by
    have := c.utf8Size_pos
    simp only [Text.byteSize_append, Text.byteSize_cons]
    omega
  refine ⟨before, c, after, rfl, hposition, hposition ▸ hlt, ?_, hcharacter, hquery,
    e.fault.newline_notMem_hint, ?_⟩
  · rw [hposition, Text.charAt?_byteSize]
  · rw [← hcolumn, ← hquery]
    exact e.report_eq

/-- The operator of `äö AND` lacks its second operand. It begins at the fifth byte, which is
the third character. -/
theorem error_place_multibyte :
    Dialect.standard.check = .ok () ∧
    Dialect.standard.parse "äö AND".toList
      = .error ⟨.missingOperand, 5, some 'A', "äö AND".toList⟩ ∧
    ∃ before c after, "äö AND".toList = before ++ c :: after ∧ 5 = Text.byteSize before ∧
      5 < Text.byteSize "äö AND".toList ∧ Text.charAt? "äö AND".toList 5 = some c ∧
      some 'A' = some c ∧ "äö AND".toList = "äö AND".toList ∧
      '\n' ∉ ParseFault.missingOperand.hint ∧
      ParseError.report ⟨.missingOperand, 5, some 'A', "äö AND".toList⟩
        = "query syntax error: ".toList ++ ParseFault.missingOperand.message ++ "\n  ".toList
          ++ "äö AND".toList ++ "\n".toList ++ List.replicate (2 + before.length) ' '
          ++ "^\nhint: ".toList ++ ParseFault.missingOperand.hint := by
  have hparse : Dialect.standard.parse "äö AND".toList
      = .error ⟨.missingOperand, 5, some 'A', "äö AND".toList⟩ := by
    decide +kernel
  exact ⟨rfl, hparse, error_place rfl (.inl hparse)⟩

end BoolQuery
