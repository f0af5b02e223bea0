import BoolQuery.Proofs.Filter.Lines
import BoolQuery.Proofs.Query.Match
import BoolQuery.Proofs.Text.Utf8

/-!
# Lines as Bytes

A filter matches a line as the text that its bytes spell, with a replacement character for each
ill-formed place. Terms that do not ask for replacement characters are found in this text exactly
where their bytes stand in the line, so the line matches exactly if the same tree holds of its
bytes, and no byte of an ill-formed place takes part in that or keeps anything from being found.

## Main definitions

* `Node.HoldsIn`: what a tree says of some bytes.
* `Query.MatchesBytes`: bytes that a query matches.

## Main results

* `Node.eval_decodeLossy_iff`: the value of a tree on the text that some bytes spell.
* `Query.accepts_decodeLossy_iff`: what a filter selects, by the bytes of the line.
-/

namespace BoolQuery

/-- What a tree says of some bytes, where a term says that the bytes of its value stand in them
side by side. -/
def Node.HoldsIn (line : Bytes) : Node → Prop
  | .term t => Utf8.encode t.value <:+: line
  | .not child => ¬ child.HoldsIn line
  | .and left right => left.HoldsIn line ∧ right.HoldsIn line
  | .or left right => left.HoldsIn line ∨ right.HoldsIn line

/-- What a tree says of some bytes can be computed. -/
def Node.decideHoldsIn (line : Bytes) : (n : Node) → Decidable (n.HoldsIn line)
  | .term t => inferInstanceAs (Decidable (Utf8.encode t.value <:+: line))
  | .not child =>
    let := child.decideHoldsIn line
    inferInstanceAs (Decidable (¬ child.HoldsIn line))
  | .and left right =>
    let := left.decideHoldsIn line
    let := right.decideHoldsIn line
    inferInstanceAs (Decidable (left.HoldsIn line ∧ right.HoldsIn line))
  | .or left right =>
    let := left.decideHoldsIn line
    let := right.decideHoldsIn line
    inferInstanceAs (Decidable (left.HoldsIn line ∨ right.HoldsIn line))

instance (line : Bytes) (n : Node) : Decidable (n.HoldsIn line) :=
  n.decideHoldsIn line

/-- Bytes that a query matches: there are some, and the tree holds of them. -/
def Query.MatchesBytes (q : Query) (line : Bytes) : Prop :=
  line ≠ [] ∧ ∃ root ∈ q.root, root.HoldsIn line

/-- **The value of a tree on the text that some bytes spell** is what it says of the bytes. -/
theorem Node.eval_decodeLossy_iff {n : Node} (line : Bytes)
    (hreplacement : ∀ t ∈ n.terms, '\ufffd' ∉ t.value) :
    n.eval (fun t => t.occursIn (Utf8.decodeLossy line)) = true ↔ n.HoldsIn line := by
  induction n with
  | term t =>
      rw [eval_term, Term.occursIn, Text.contains_eq_true_iff,
        Utf8.infix_decodeLossy_iff (hreplacement t (by simp [terms]))]
      rfl
  | not child ih => rw [eval_not, Bool.not_eq_true', ← Bool.not_eq_true, ih hreplacement, HoldsIn]
  | and left right ihleft ihright =>
      rw [eval_and, Bool.and_eq_true,
        ihleft fun t ht => hreplacement t (List.mem_append_left _ ht),
        ihright fun t ht => hreplacement t (List.mem_append_right _ ht), HoldsIn]
  | or left right ihleft ihright =>
      rw [eval_or, Bool.or_eq_true,
        ihleft fun t ht => hreplacement t (List.mem_append_left _ ht),
        ihright fun t ht => hreplacement t (List.mem_append_right _ ht), HoldsIn]

/-- **What a filter selects, by the bytes of the line.** A query whose terms have no replacement
characters matches the text that a line spells exactly if it matches the bytes of the line, and so
a filter selects the lines of which this is true, or false if it is inverted. -/
theorem Query.accepts_decodeLossy_iff {q : Query}
    (hreplacement : ∀ t ∈ q.terms, '\ufffd' ∉ t.value) (line : Bytes) :
    (q.accepts (Utf8.decodeLossy line) = true ↔ q.MatchesBytes line) ∧
      ∀ invert countOnly, ({ query := q, invert, countOnly } : Filter).selects line = true ↔
        (q.MatchesBytes line ↔ invert = false) := by
  have haccepts : q.accepts (Utf8.decodeLossy line) = true ↔ q.MatchesBytes line := by
    obtain ⟨_ | root⟩ := q
    · simp [MatchesBytes]
    · rw [accepts_some, Node.accepts_eq_true_iff, ne_eq, Utf8.decodeLossy_eq_nil_iff,
        Node.eval_decodeLossy_iff line (by simpa [terms] using hreplacement)]
      simp [MatchesBytes]
  refine ⟨haccepts, fun invert countOnly => ?_⟩
  rw [← haccepts, Filter.selects]
  cases q.accepts (Utf8.decodeLossy line) <;> cases invert <;> simp

/-- The query `a AND NOT é`. -/
def plainLetter : Query :=
  ⟨some (.and (.term { value := "a".toList }) (.not (.term { value := "é".toList })))⟩

/-- It matches an `a` between bytes of which neither is a character, the second of them the first
byte of an `é`; with the other byte behind it, it does not. -/
theorem accepts_decodeLossy_truncated :
    (∀ t ∈ plainLetter.terms, '\ufffd' ∉ t.value) ∧
    plainLetter.accepts (Utf8.decodeLossy [0xff, 0x61, 0xc3]) = true ∧
    plainLetter.accepts (Utf8.decodeLossy [0xff, 0x61, 0xc3, 0xa9]) = false := by
  have hreplacement : ∀ t ∈ plainLetter.terms, '\ufffd' ∉ t.value := by decide +kernel
  refine ⟨hreplacement, (Query.accepts_decodeLossy_iff hreplacement _).1.mpr ⟨by simp, _, rfl, ?_⟩,
    Bool.eq_false_iff.mpr ?_⟩
  · decide +kernel
  · rw [ne_eq, (Query.accepts_decodeLossy_iff hreplacement _).1]
    rintro ⟨-, _, ⟨⟩, hholds⟩
    revert hholds
    decide +kernel

end BoolQuery
