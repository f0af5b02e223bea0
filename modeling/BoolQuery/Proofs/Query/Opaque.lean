import BoolQuery.Proofs.Query.Grouping
import BoolQuery.Proofs.Token.QuotedPart

/-!
# Quoted Text Is Opaque

What stands in quotes is text and nothing else. Two queries that differ only in one quoted part
are read side by side: both are read or both are refused. The trees have the same shape, and
one leaf has the one quoted text in its value where it has the other in the other tree. The
errors say the same about the same place, counted from the start of the query up to the quote
that opens, and from behind the quote that closes after it. So whatever somebody puts into
quotes, it becomes part of one value, and cannot change the rest of the query.

## Main definitions

* `Query.Swapped`: trees that differ in a part of one value.

## Main results

* `checkBalance_shifted`, `scan_swapped`, `buildTree_swapped`: the steps of reading, side by side.
* `quoted_opaque`: reading two queries that differ in a quoted part.
-/

namespace BoolQuery

open Dialect

variable {d : Dialect} {P : Nat → Nat → Prop} {p x y : Text} {ts ts' : List Token}

/-! ### The bracket check -/

/-- Errors at the same character in related places are alike. -/
theorem likeAt_of_position {n n' : Nat} (c : Char) (h : P n n') :
    LikeAt (ParseError.Shifted P) c n n' :=
  fun _ _ => ⟨rfl, h, rfl⟩

/-- **The brackets of two queries that differ in a quoted part** are checked alike. -/
theorem checkBalance_shifted (hout : d.Outside p) (hx : d.quote ∉ x) (hy : d.quote ∉ y)
    (t : Text) :
    Alike (ParseError.Shifted (d.Aligned p x y)) (fun _ _ => True)
      (checkBalance d (p ++ d.quote :: (x ++ d.quote :: t)))
      (checkBalance d (p ++ d.quote :: (y ++ d.quote :: t))) := by
  have hstart : Balance.Like (ParseError.Shifted (d.Aligned p x y)) {} {} := ⟨rfl, .nil⟩
  have hfore : ∀ front c after, p = front ++ c :: after →
      LikeAt (ParseError.Shifted (d.Aligned p x y)) c (0 + Text.byteSize front)
        (0 + Text.byteSize front) := by
    rintro front c after rfl
    exact likeAt_of_position c (aligned_fore (by simp))
  rw [checkBalance, checkBalance, List.foldlM_append, List.foldlM_append, bind_assoc, bind_assoc]
  -- up to the opening quote there is only one check
  refine (Balance.run_like hstart hfore).with_eq.bind fun b b' hb => ?_
  obtain ⟨hb, hrun, hrun'⟩ := hb
  obtain rfl := Except.ok.inj (hrun.symm.trans hrun')
  have hbegin : ({} : Balance).inQuote = true ↔ ¬ d.Outside [] := by simp
  have hin : b.inQuote = false := by simpa [hout] using Balance.inQuote_run hbegin hrun
  have hoffset : b.offset = Text.byteSize p := by simpa using hb.left
  have hquoted : ∀ z : Text, d.quote ∉ z →
      (d.quote :: (z ++ d.quote :: t)).foldlM (Balance.step d) b
        = t.foldlM (Balance.step d)
            { b with offset := Text.byteSize (p ++ d.quote :: (z ++ [d.quote])) } := by
    intro z hz
    have hsplit : d.quote :: (z ++ d.quote :: t) = d.quote :: (z ++ [d.quote]) ++ t := by simp
    rw [hsplit, foldlM_append_of_ok (Balance.neutral_quoted hz b hin), hoffset,
      ← Text.byteSize_append]
  have hlike : ∀ n n', Balance.Like (ParseError.Shifted (d.Aligned p x y)) { b with offset := n }
      { b with offset := n' } := fun _ _ => ⟨rfl, hb.like.pending⟩
  rw [hquoted x hx, hquoted y hy]
  refine (Balance.run_like (hlike _ _) fun front c after _ => ?_).bind
    fun r r' hr => Balance.finish_like hr.like
  exact likeAt_of_position c (aligned_aft _)

/-! ### The postfix pass and the fold -/

/-- The terms of the two rows are the same, but for one, which has `x` in its value in the one row
where it has `y` in the other. -/
def Term.OneSwapped (x y : Text) (ts ts' : List Term) : Prop :=
  ∃ (fore : List Term) (t : Term) (v w : Text) (aft : List Term),
    ts = fore ++ { t with value := v ++ x ++ w } :: aft ∧
    ts' = fore ++ { t with value := v ++ y ++ w } :: aft

namespace TokenKind.Swapped

variable {kind kind' : TokenKind}

/-- Kinds that differ in no value are the same. -/
theorem eq (h : kind.Swapped x y 0 kind') : kind = kind' := by
  cases h with
  | same => rfl
  | term t hvalue => rw [hvalue.eq]

/-- Kinds that differ in a value are terms. -/
theorem exists_term (h : kind.Swapped x y 1 kind') : ∃ (t : Term) (v w : Text),
    kind = .term { t with value := v ++ x ++ w } ∧
    kind' = .term { t with value := v ++ y ++ w } := by
  cases h with
  | term t hvalue =>
      cases hvalue with
      | swap v w => exact ⟨t, v, w, rfl, rfl⟩

end TokenKind.Swapped

namespace Token.RowSwapped

/-- Rows of tokens that differ in values and places are of the same classes. -/
theorem like {n : Nat} (h : RowSwapped P x y n ts ts') :
    List.Forall₂ (Token.Like (ParseError.Shifted P) fun _ _ => True) ts ts' := by
  induction h with
  | nil => exact .nil
  | @cons _ _ t t' _ _ ht _ ih =>
      refine .cons ⟨?_, fun fault => ⟨rfl, ht.position, rfl⟩⟩ ih
      obtain ⟨kind, position⟩ := t
      obtain ⟨kind', position'⟩ := t'
      cases ht.kind with
      | term => exact .term trivial
      | same =>
          cases kind with
          | term => exact .term trivial
          | operator op => exact .operator op
          | openGroup => exact .openGroup
          | closeGroup => exact .closeGroup

/-- The terms of rows that differ in no value are the same. -/
theorem terms_eq {n : Nat} (h : RowSwapped P x y n ts ts') (hn : n = 0) :
    ts.filterMap (·.kind.term?) = ts'.filterMap (·.kind.term?) := by
  induction h with
  | nil => rfl
  | cons ht _ ih =>
      obtain ⟨rfl, rfl⟩ := Nat.add_eq_zero_iff.mp hn
      rw [List.filterMap_cons, List.filterMap_cons, ht.kind.eq, ih rfl]

/-- **The terms of rows that differ in one value** are the same, but for this value. -/
theorem terms_oneSwapped {n : Nat} (h : RowSwapped P x y n ts ts') (hn : n = 1) :
    Term.OneSwapped x y (ts.filterMap (·.kind.term?)) (ts'.filterMap (·.kind.term?)) := by
  induction h with
  | nil => cases hn
  | @cons n m t t' ts ts' ht hts ih =>
      obtain ⟨rfl, rfl⟩ | ⟨rfl, rfl⟩ : n = 0 ∧ m = 1 ∨ n = 1 ∧ m = 0 := by omega
      · obtain ⟨fore, u, v, w, aft, hleft, hright⟩ := ih rfl
        rw [List.filterMap_cons, List.filterMap_cons, ht.kind.eq, hleft, hright]
        cases t'.kind.term? with
        | none => exact ⟨fore, u, v, w, aft, rfl, rfl⟩
        | some first => exact ⟨first :: fore, u, v, w, aft, rfl, rfl⟩
      · obtain ⟨u, v, w, hleft, hright⟩ := ht.kind.exists_term
        rw [List.filterMap_cons, List.filterMap_cons, hleft, hright, hts.terms_eq rfl]
        exact ⟨[], u, v, w, _, rfl, rfl⟩

end Token.RowSwapped

/-- The trees have the same shape and the same leaves, but for one leaf, which has `x` in its
value in the one tree where it has `y` in the other. -/
def Query.Swapped (x y : Text) (Q Q' : Query) : Prop :=
  ∃ a b, Q = ⟨some a⟩ ∧ Q' = ⟨some b⟩ ∧ a.Like (fun _ _ => True) b ∧
    Term.OneSwapped x y a.terms b.terms

/-- The leaves of the tree that tokens are read as are the terms among them. -/
theorem terms_of_toPostfix_buildTree {Q : Query} (h : (toPostfix ts >>= buildTree) = .ok Q) :
    Q.terms = ts.filterMap (·.kind.term?) := by
  obtain ⟨out, hout, hbuild⟩ := bind_eq_ok_iff.mp h
  rcases buildTree_of_toPostfix hout with ⟨rfl, hempty⟩ | ⟨p, hp, htree⟩
  · obtain rfl := Except.ok.inj (hempty.symm.trans hbuild)
    rfl
  · split at htree
    · obtain rfl := Except.ok.inj (htree.symm.trans hbuild)
      simpa [Query.terms] using hp.terms
    · obtain ⟨position, herror⟩ := htree
      rw [herror] at hbuild
      cases hbuild

/-- **The trees of rows of tokens that differ in one value** differ in this value. -/
theorem buildTree_swapped (h : Token.RowSwapped P x y 1 ts ts') :
    Alike (ParseError.Shifted P) (Query.Swapped x y) (toPostfix ts >>= buildTree)
      (toPostfix ts' >>= buildTree) := by
  refine (toPostfix_buildTree_like h.like).with_eq.mono (fun _ _ he => he) ?_
  rintro ⟨root⟩ ⟨root'⟩ ⟨hroot, hQ, hQ'⟩
  have hterms := terms_of_toPostfix_buildTree hQ
  have hterms' := terms_of_toPostfix_buildTree hQ'
  have hrow := h.terms_oneSwapped rfl
  rw [← hterms, ← hterms'] at hrow
  cases hroot with
  | none =>
      obtain ⟨fore, t, v, w, aft, hleft, -⟩ := hrow
      simp [Query.terms] at hleft
  | @some a b hab => exact ⟨a, b, rfl, rfl, hab, by simpa [Query.terms] using hrow⟩

/-! ### Reading the queries -/

/-- At places that belong together stands the same character. -/
theorem charAt?_aligned {n n' : Nat} (h : d.Aligned p x y n n') (t : Text) :
    Text.charAt? (p ++ d.quote :: (x ++ d.quote :: t)) n
      = Text.charAt? (p ++ d.quote :: (y ++ d.quote :: t)) n' := by
  rcases h with ⟨hle, rfl⟩ | ⟨k, rfl, rfl⟩
  · rcases Nat.lt_or_eq_of_le hle with hlt | rfl
    · rw [Text.charAt?_append_of_lt hlt, Text.charAt?_append_of_lt hlt]
    · rw [Text.charAt?_byteSize, Text.charAt?_byteSize]
  · have hsplit : ∀ z : Text, p ++ d.quote :: (z ++ d.quote :: t)
        = p ++ d.quote :: (z ++ [d.quote]) ++ t := by simp
    rw [hsplit x, hsplit y, Text.charAt?_append_add, Text.charAt?_append_add]

/-- Outcomes that are alike are so when they are shown in queries that have the same characters
at related places. -/
theorem Alike.inQuery {α : Type} {S : α → α → Prop} {r r' : Except ParseError α} {q q' : Text}
    (h : Alike (ParseError.Shifted P) S r r')
    (hchar : ∀ n n', P n n' → q.charAt? n = q'.charAt? n') :
    Alike (ParseError.Shifted P) S (BoolQuery.inQuery q r) (BoolQuery.inQuery q' r') := by
  cases h with
  | ok hs => exact .ok hs
  | @error e e' he =>
      refine .error ⟨he.fault, he.position, ?_⟩
      have hfill : (e.character <|> q.charAt? e.position)
          = (e'.character <|> q'.charAt? e'.position) := by
        rw [he.character, hchar _ _ he.position]
      exact hfill

/-- **Quoted text is opaque.** Two queries that differ only in what stands between two quotes are
both read or both refused. If they are read, the trees have the same shape and the same leaves
but for one, whose values differ in nothing but the quoted text. If they are refused, the errors
say the same about the same character, either up to the opening quote or behind the closing
one. -/
theorem quoted_opaque (hd : d.check = .ok ()) (hout : d.Outside p) (hx : d.quote ∉ x)
    (hy : d.quote ∉ y) (t : Text) :
    Alike (ParseError.Shifted (d.Aligned p x y)) (Query.Swapped x y)
      (d.parse (p ++ d.quote :: (x ++ d.quote :: t)))
      (d.parse (p ++ d.quote :: (y ++ d.quote :: t))) := by
  have hd := check_eq_ok_iff.mp hd
  refine Alike.inQuery ?_ fun n n' h => charAt?_aligned h t
  refine (checkBalance_shifted hout hx hy t).bind fun _ _ _ => ?_
  exact (scan_swapped hd hout hx hy t).bind fun ts ts' hts => buildTree_swapped hts

/-- In `a OR f:b"…"` the quoted text is part of the value, whatever it is. In `a OR "…" )` the
closing parenthesis closes nothing, whatever is quoted before it. -/
theorem quoted_opaque_parentheses :
    Dialect.standard.check = .ok () ∧
    Dialect.standard.parse ("a OR f:b".toList ++ '"' :: (") OR (".toList ++ '"' :: []))
      = .ok ⟨some (.or (.term { value := "a".toList })
          (.term { value := "b) OR (".toList, field := some "f".toList }))⟩ ∧
    (∃ Q, Dialect.standard.parse ("a OR f:b".toList ++ '"' :: ([] ++ '"' :: [])) = .ok Q ∧
      Query.Swapped ") OR (".toList []
        ⟨some (.or (.term { value := "a".toList })
          (.term { value := "b) OR (".toList, field := some "f".toList }))⟩ Q) ∧
    ∃ e, Dialect.standard.parse ("a OR ".toList ++ '"' :: ("é".toList ++ '"' :: " )".toList))
        = .error e ∧
      ParseError.Shifted (Dialect.standard.Aligned "a OR ".toList "(".toList "é".toList)
        ⟨.missingOpen, 9, some ')', "a OR \"(\" )".toList⟩ e := by
  have hread : Dialect.standard.parse ("a OR f:b".toList ++ '"' :: (") OR (".toList ++ '"' :: []))
      = .ok ⟨some (.or (.term { value := "a".toList })
          (.term { value := "b) OR (".toList, field := some "f".toList }))⟩ := by
    decide +kernel
  have hrefused : Dialect.standard.parse
        ("a OR ".toList ++ '"' :: ("(".toList ++ '"' :: " )".toList))
      = .error ⟨.missingOpen, 9, some ')', "a OR \"(\" )".toList⟩ := by
    decide +kernel
  have hempty := quoted_opaque (d := Dialect.standard) (p := "a OR f:b".toList)
    (x := ") OR (".toList) (y := []) rfl (by decide) (by decide) (by decide) []
  have haccent := quoted_opaque (d := Dialect.standard) (p := "a OR ".toList)
    (x := "(".toList) (y := "é".toList) rfl (by decide) (by decide) (by decide) " )".toList
  exact ⟨rfl, hread, hempty.exists_ok hread, haccent.exists_error hrefused⟩

end BoolQuery
