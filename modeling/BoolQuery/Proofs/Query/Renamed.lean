import BoolQuery.Proofs.Query.Errors
import BoolQuery.Proofs.Token.Renamed
import Mathlib.Logic.Equiv.Basic

/-!
# Reading Renamed Queries

No character is special by itself. If the characters of a query are renamed, and those of the
dialect with them, the query is read as the renamed tree, or it is refused for the same reason
at the same character. Each step of reading is compared with itself on the renamed query: the
bracket check meets the same brackets, the scan finds renamed tokens, and the last two steps only
hand the terms on.

## Main definitions

* `Node.rename`, `Query.rename`: renamed trees.
* `Balance.Renamed`: states of the bracket check with the same brackets at the same characters.

## Main results

* `checkBalance_rename`, `scan_rename`, `buildTree_rename`: the steps of reading.
* `parse_rename`: reading a renamed query.
-/

namespace BoolQuery

open Dialect

/-! ### Trees -/

/-- The tree with all its terms renamed. -/
def Node.rename (r : Renaming) : Node → Node
  | .term t => .term (t.rename r)
  | .not child => .not (child.rename r)
  | .and left right => .and (left.rename r) (right.rename r)
  | .or left right => .or (left.rename r) (right.rename r)

/-- The query with all its terms renamed. -/
def Query.rename (r : Renaming) (Q : Query) : Query :=
  ⟨Q.root.map (Node.rename r)⟩

variable (r : Renaming)

/-- Different terms get different names. -/
theorem Term.rename_injective : Function.Injective (Term.rename r) := by
  intro t t' h
  have hoption := Option.map_injective r.map_injective
  obtain ⟨value, field, operator, modifier⟩ := t
  obtain ⟨value', field', operator', modifier'⟩ := t'
  simp only [rename, Term.mk.injEq] at h ⊢
  exact ⟨r.map_injective h.1, hoption h.2.1, hoption h.2.2.1, hoption h.2.2.2⟩

/-- Different trees get different names. -/
theorem Node.rename_injective : Function.Injective (Node.rename r) := by
  intro n n' h
  induction n generalizing n' with
  | term t =>
      cases n' <;> simp only [rename, Node.term.injEq, reduceCtorEq] at h
      rw [Term.rename_injective r h]
  | not child ih =>
      cases n' <;> simp only [rename, Node.not.injEq, reduceCtorEq] at h
      rw [ih h]
  | and left right ihl ihr | or left right ihl ihr =>
      cases n' <;> simp only [rename, Node.and.injEq, Node.or.injEq, reduceCtorEq] at h
      rw [ihl h.1, ihr h.2]

/-- Different queries get different names. -/
theorem Query.rename_injective : Function.Injective (Query.rename r) := by
  intro Q Q' h
  obtain ⟨root⟩ := Q
  obtain ⟨root'⟩ := Q'
  simp only [rename, Query.mk.injEq] at h ⊢
  exact Option.map_injective (Node.rename_injective r) h

/-- Trees of the same shape with renamed terms are renamed trees. -/
theorem Node.Like.eq_rename {n n' : Node} (h : n.Like (fun t t' => t' = t.rename r) n') :
    n' = n.rename r := by
  induction h with
  | term ht => rw [ht]; rfl
  | not _ ih => rw [ih]; rfl
  | and _ _ ihl ihr => rw [ihl, ihr]; rfl
  | or _ _ ihl ihr => rw [ihl, ihr]; rfl

/-! ### The bracket check -/

/-- The brackets are the same after renaming, at the same character of the query `q`. -/
structure OpenBracket.Renamed (r : Renaming) (q : Text) (o o' : OpenBracket) : Prop where
  /-- The classes. -/
  kind : o'.kind = o.kind
  /-- The characters. -/
  character : o'.character = r o.character
  /-- The places. -/
  place : r.SamePlace q o.position o'.position

/-- The one check has read the front `before` of the query `q`, and the other one the renamed
front of the renamed query. The same brackets wait. -/
structure Balance.Renamed (r : Renaming) (q before : Text) (b b' : Balance) : Prop where
  /-- The place of the one. -/
  offset : b.offset = Text.byteSize before
  /-- The place of the other. -/
  offset' : b'.offset = Text.byteSize (before.map r)
  /-- Whether the checks are in a quoted part. -/
  inQuote : b'.inQuote = b.inQuote
  /-- The brackets that wait. -/
  pending : List.Forall₂ (OpenBracket.Renamed r q) b.pending b'.pending

variable {r} {d : Dialect} {q before after t : Text} {c : Char}

namespace Balance

variable {b b' : Balance}

/-- The place of the next character. -/
theorem Renamed.place (h : Renamed r q before b b') (hq : q = before ++ c :: after) :
    r.SamePlace q b.offset b'.offset :=
  ⟨before, c, after, hq, h.offset, h.offset'⟩

/-- The same bracket is closed, or missed. -/
theorem close_rename (h : Renamed r q before b b') (hq : q = before ++ c :: after)
    (kind : BracketKind) :
    Alike (ParseError.Renamed r q) (Renamed r q before) (b.close kind c) (b'.close kind (r c)) := by
  have hpending := h.pending
  rw [Balance.close, Balance.close]
  generalize b.pending = pending at hpending
  generalize b'.pending = pending' at hpending
  cases hpending with
  | nil => exact .error ⟨rfl, h.place hq, rfl⟩
  | cons htop houter =>
      simp only [htop.kind]
      split
      · exact .ok ⟨h.offset, h.offset', h.inQuote, houter⟩
      · exact .error ⟨rfl, h.place hq, rfl⟩

/-- The same bracket waits, is closed, or missed. -/
theorem bracket_rename (h : Renamed r q before b b') (hq : q = before ++ c :: after) :
    Alike (ParseError.Renamed r q) (Renamed r q before) (b.bracket d c)
      (b'.bracket (d.rename r) (r c)) := by
  rw [Balance.bracket, Balance.bracket, bracket?_rename]
  cases d.bracket? c with
  | none => exact .ok h
  | some bracket =>
      obtain ⟨kind, side⟩ := bracket
      cases side with
      | opening =>
          exact .ok ⟨h.offset, h.offset', h.inQuote, .cons ⟨rfl, rfl, h.place hq⟩ h.pending⟩
      | closing => exact close_rename h hq kind

/-- The character is passed over. -/
theorem Renamed.pass (h : Renamed r q before b b') (c : Char) :
    Renamed r q (before ++ [c]) (b.pass c) (b'.pass (r c)) :=
  ⟨by simp [Balance.pass, h.offset], by simp [Balance.pass, h.offset'], h.inQuote, h.pending⟩

/-- **One character.** -/
theorem step_rename (h : Renamed r q before b b') (hq : q = before ++ c :: after) :
    Alike (ParseError.Renamed r q) (Renamed r q (before ++ [c])) (step d b c)
      (step (d.rename r) b' (r c)) := by
  have hquote : r c = (d.rename r).quote ↔ c = d.quote := r.apply_eq_iff
  simp only [Balance.step, hquote, h.inQuote]
  split
  · have hturned : Renamed r q before { b with inQuote := !b.inQuote }
        { b' with inQuote := !b.inQuote } := ⟨h.offset, h.offset', rfl, h.pending⟩
    exact .ok (hturned.pass c)
  split
  · exact .ok (h.pass c)
  · exact (bracket_rename h hq).map fun _ _ hr => hr.pass c

/-- The rest of the query. -/
theorem run_rename (h : Renamed r q before b b') (hq : q = before ++ t) :
    Alike (ParseError.Renamed r q) (Renamed r q q) (t.foldlM (step d) b)
      ((t.map r).foldlM (step (d.rename r)) b') := by
  induction t generalizing before b b' with
  | nil =>
      obtain rfl : q = before := by simpa using hq
      exact .ok h
  | cons c t ih =>
      rw [List.map_cons, List.foldlM_cons, List.foldlM_cons]
      exact (step_rename h hq).bind fun _ _ hr => ih hr (by simpa using hq)

/-- The same bracket is left open, or none. -/
theorem finish_rename (h : Renamed r q before b b') :
    Alike (ParseError.Renamed r q) (fun _ _ => True) b.finish b'.finish := by
  have hpending := h.pending
  rw [Balance.finish, Balance.finish]
  generalize b.pending = pending at hpending
  generalize b'.pending = pending' at hpending
  cases hpending with
  | nil => exact .ok trivial
  | cons htop _ => exact .error ⟨rfl, htop.place, congrArg some htop.character⟩

end Balance

/-- **The brackets of a renamed query** are checked alike. -/
theorem checkBalance_rename (r : Renaming) (d : Dialect) (q : Text) :
    Alike (ParseError.Renamed r q) (fun _ _ => True) (checkBalance d q)
      (checkBalance (d.rename r) (q.map r)) := by
  have hstart : Balance.Renamed r q [] {} {} := ⟨rfl, rfl, rfl, .nil⟩
  exact (Balance.run_rename hstart rfl).bind fun _ _ hb => Balance.finish_rename hb

/-! ### The scan, the postfix pass and the fold -/

/-- **The scan of a renamed query** finds the renamed tokens. -/
theorem scan_rename (r : Renaming) (hd : d.Sound) (q : Text) :
    Alike (ParseError.Renamed r q) (List.Forall₂ (Token.Renamed r q)) (scan d q)
      (scan (d.rename r) (q.map r)) := by
  obtain ⟨l, hl, rfl, hscan⟩ := exists_layout hd q
  have hscan' := scan_text (hd.rename r) (hl.rename r hd)
  rw [Layout.text_rename] at hscan'
  rw [hscan, hscan']
  exact Layout.tokens_rename r hd hl rfl

/-- **Renamed tokens make up the renamed tree.** -/
theorem buildTree_rename {ts ts' : List Token} (h : List.Forall₂ (Token.Renamed r q) ts ts') :
    Alike (ParseError.Renamed r q) (fun Q Q' => Q' = Q.rename r) (toPostfix ts >>= buildTree)
      (toPostfix ts' >>= buildTree) := by
  refine (toPostfix_buildTree_like h).mono (fun _ _ he => he) ?_
  rintro ⟨root⟩ ⟨root'⟩ hroot
  cases hroot with
  | none => rfl
  | some hnode => exact congrArg (fun n => Query.mk (some n)) hnode.eq_rename

/-! ### Reading renamed queries -/

/-- Errors about the same character are so when they are shown in the queries. -/
theorem ParseError.Renamed.inQuery {e e' : ParseError} (h : ParseError.Renamed r q e e') :
    ParseError.Renamed r q (e.inQuery q) (e'.inQuery (q.map r)) := by
  obtain ⟨before, c, after, rfl, hplace, hplace'⟩ := h.place
  refine ⟨h.fault, h.place, ?_⟩
  rw [ParseError.inQuery, ParseError.inQuery, hplace, hplace', List.map_append, List.map_cons,
    Text.charAt?_byteSize, Text.charAt?_byteSize, h.character]
  cases e.character <;> rfl

/-- Outcomes that belong together do so when they are shown in the queries. -/
theorem inQuery_rename {α β : Type} {S : α → β → Prop} {x : Except ParseError α}
    {y : Except ParseError β} (h : Alike (ParseError.Renamed r q) S x y) :
    Alike (ParseError.Renamed r q) S (inQuery q x) (inQuery (q.map r) y) := by
  cases h with
  | ok hs => exact .ok hs
  | error he => exact .error he.inQuery

/-- A renamed query is read as the renamed tree, or refused alike. -/
theorem parse_rename_alike (r : Renaming) (hd : d.Sound) (q : Text) :
    Alike (ParseError.Renamed r q) (fun Q Q' => Q' = Q.rename r) (d.parse q)
      ((d.rename r).parse (q.map r)) := by
  refine inQuery_rename ((checkBalance_rename r d q).bind fun _ _ _ => ?_)
  exact (scan_rename r hd q).bind fun _ _ hts => buildTree_rename hts

/-- **No character is special by itself.** The renamed dialect can be used if the dialect can.
The renamed query is read in it as the renamed tree exactly if the query is read as the tree. If
the query is refused, then the renamed query is refused for the same reason at the same
character. -/
theorem parse_rename (r : Renaming) (hd : d.check = .ok ()) :
    (d.rename r).check = .ok () ∧ ∀ q,
      (∀ Q, (d.rename r).parse (q.map r) = .ok (Q.rename r) ↔ d.parse q = .ok Q) ∧
      ∀ e, d.parse q = .error e →
        ∃ e', (d.rename r).parse (q.map r) = .error e' ∧ ParseError.Renamed r q e e' := by
  have hd := check_eq_ok_iff.mp hd
  refine ⟨check_eq_ok_iff.mpr (hd.rename r), fun q => ⟨fun Q => ⟨fun h => ?_, fun h => ?_⟩, ?_⟩⟩
  · have halike := parse_rename_alike r hd q
    rw [h] at halike
    generalize d.parse q = outcome at halike
    cases halike with
    | ok hQ => rw [Query.rename_injective r hQ]
  · obtain ⟨Q', hQ', rfl⟩ := (parse_rename_alike r hd q).exists_ok h
    exact hQ'
  · intro e h
    exact (parse_rename_alike r hd q).exists_error h

/-- Two characters take each other's names. -/
def Renaming.swap (a b : Char) (h : Text.isBlank a = Text.isBlank b) : Renaming where
  perm := Equiv.swap a b
  isBlank_perm c := by
    rw [Equiv.swap_apply_def]
    split
    · next hc => rw [hc, h]
    split
    · next hc => rw [hc, h]
    · rfl

/-- With `O` and `é` swapped, the keywords are `AND`, `éR` and `NéT`. The characters `O` in the
terms are renamed, too, and the place of an error behind one of them is another one. -/
theorem parse_rename_swap :
    Dialect.standard.check = .ok () ∧
    Dialect.standard.parse "fOo:é OR NOT O".toList
      = .ok ⟨some (.or (.term { value := "é".toList, field := some "fOo".toList })
          (.not (.term { value := "O".toList })))⟩ ∧
    (Dialect.standard.rename (.swap 'O' 'é' rfl)).parse "féo:O éR NéT é".toList
      = .ok ⟨some (.or (.term { value := "O".toList, field := some "féo".toList })
          (.not (.term { value := "é".toList })))⟩ ∧
    Dialect.standard.parse "O OR".toList = .error ⟨.missingOperand, 2, some 'O', "O OR".toList⟩ ∧
    ∃ e, (Dialect.standard.rename (.swap 'O' 'é' rfl)).parse "é éR".toList = .error e ∧
      ParseError.Renamed (.swap 'O' 'é' rfl) "O OR".toList
        ⟨.missingOperand, 2, some 'O', "O OR".toList⟩ e := by
  have hread : Dialect.standard.parse "fOo:é OR NOT O".toList
      = .ok ⟨some (.or (.term { value := "é".toList, field := some "fOo".toList })
          (.not (.term { value := "O".toList })))⟩ := by
    decide +kernel
  have hrefused : Dialect.standard.parse "O OR".toList
      = .error ⟨.missingOperand, 2, some 'O', "O OR".toList⟩ := by
    decide +kernel
  obtain ⟨-, hrename⟩ := parse_rename (.swap 'O' 'é' rfl) (d := .standard) rfl
  exact ⟨rfl, hread, ((hrename _).1 _).mpr hread, hrefused, (hrename _).2 _ hrefused⟩

end BoolQuery
