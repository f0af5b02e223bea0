import BoolQuery.Proofs.Postfix.Precedence
import BoolQuery.Proofs.Query.WrittenTree
import BoolQuery.Proofs.Token.Faults

/-!
# Writing and Reading Back

Reading a query takes four steps, each of which has its own theory: the bracket check, the
scan, the postfix pass and the fold. Together they say what it means that a query is read as a
tree. The canonical text of a tree that comes from reading passes all four, and is read as the
same tree again.

## Main results

* `parse_eq_ok_iff`: what a query is read as.
* `writable_of_parse`: the terms of a tree that comes from reading can be written.
* `parse_of_writes`: a text that is a written form of a tree is read as the tree.
* `parse_canonical`: the canonical text of what comes from reading is read as the same.
-/

namespace BoolQuery

open Dialect

variable {d : Dialect} {q : Text} {Q : Query} {n : Node}

/-- A query is read when each of the four steps succeeds. -/
theorem parse_eq_ok_iff_steps : d.parse q = .ok Q ↔
    checkBalance d q = .ok () ∧ ∃ ts, d.tokenize q = .ok ts ∧
      ∃ out, toPostfix ts = .ok out ∧ buildTree out = .ok Q := by
  simp only [parse, tokenize_eq_ok_iff, inQuery_eq_ok_iff, bind_eq_ok_iff]
  constructor
  · rintro ⟨⟨⟩, hrest⟩
    exact hrest
  · intro h
    exact ⟨(), h⟩

/-- **What a query is read as**: its brackets are balanced, and its tokens make up nothing, or a
phrase of which the tree is not too deep. -/
theorem parse_eq_ok_iff : d.parse q = .ok Q ↔
    checkBalance d q = .ok () ∧ ∃ ts, d.tokenize q = .ok ts ∧
      (ts = [] ∧ Q = .empty ∨
        ∃ p, Derives .or ts p ∧ p.node.depth ≤ maxDepth ∧ Q = ⟨some p.node⟩) := by
  rw [parse_eq_ok_iff_steps]
  refine and_congr_right fun _ => exists_congr fun ts => and_congr_right fun _ => ?_
  constructor
  · rintro ⟨out, hout, htree⟩
    rcases buildTree_of_toPostfix hout with ⟨rfl, hempty⟩ | ⟨p, hp, hbuild⟩
    · exact .inl ⟨rfl, Except.ok.inj (htree.symm.trans hempty)⟩
    · split at hbuild
      · next hdepth =>
        exact .inr ⟨p, hp, hdepth, Except.ok.inj (htree.symm.trans hbuild)⟩
      · obtain ⟨position, herror⟩ := hbuild
        rw [herror] at htree
        cases htree
  · rintro (⟨rfl, rfl⟩ | ⟨p, hp, hdepth, rfl⟩)
    · exact ⟨[], rfl, rfl⟩
    · exact ⟨_, hp.toPostfix, Phrase.buildTree_postorder hdepth⟩

/-- The terms of a tree that comes from reading can be written. -/
theorem writable_of_parse (hd : d.Sound) (h : d.parse q = .ok ⟨some n⟩) :
    ∀ t ∈ n.terms, t.Writable d := by
  intro t ht
  obtain ⟨-, ts, hts, ⟨-, hQ⟩ | ⟨p, hp, -, hQ⟩⟩ := parse_eq_ok_iff.mp h
  · cases hQ
  · obtain rfl : n = p.node := by simpa using hQ
    obtain ⟨place, hmem⟩ := Phrase.exists_mem_postorder_of_mem_terms ht
    have hmem := List.mem_of_mem_filter (hp.postorder_perm.mem_iff.mp hmem)
    obtain ⟨before, seg, hseg, -, rfl⟩ := (mem_tokenize_term_iff hd hts).mp hmem
    exact Term.writable_termOf hd hseg

/-- **A written form of a tree is read as the tree.** -/
theorem parse_of_writes (hd : d.Sound) {write : Layout → Layout} {t : Text}
    (h : Layout.Writes d write t n) (hdepth : n.depth ≤ maxDepth) :
    d.parse t = .ok ⟨some n⟩ := by
  have hlast : ∀ p, ∃ ts, (Layout.last []).tokens d p = .ok ts := fun p =>
    ⟨[], Layout.tokens_last_eq_ok_iff.mpr ⟨none, readSegment_of_blank hd rfl, rfl⟩⟩
  obtain ⟨ts, p, _, ts', hp, rfl, hts', htokens⟩ := h.tokens 0 [] (.last []) rfl rfl hlast
  obtain ⟨_, hnone, rfl⟩ := Layout.tokens_last_eq_ok_iff.mp hts'
  obtain rfl := Except.ok.inj ((readSegment_of_blank hd rfl).symm.trans hnone)
  have hvalid : (write (.last [])).Valid d [] :=
    h.valid [] (.last []) outside_nil (.inl rfl) rfl (.last plain_nil)
  have htext : (write (.last [])).text = t := by simp [h.text, Layout.text]
  rw [Layout.prepend_nil, ← scan_text hd hvalid, htext] at htokens
  refine parse_eq_ok_iff.mpr ⟨h.neutral.check, ts, ?_, .inr ⟨p, .ofAnd (.ofUnary hp), hdepth, rfl⟩⟩
  rw [tokenize_eq_ok_iff, htokens]
  simp

/-- The empty text is read as the empty query. -/
theorem parse_nil (d : Dialect) : d.parse [] = .ok .empty := by
  refine parse_eq_ok_iff.mpr ⟨rfl, [], ?_, .inl ⟨rfl, rfl⟩⟩
  rw [tokenize_eq_ok_iff, scan, Scanner.run]
  rfl

/-- **Writing and reading back**: the canonical text of what comes from reading a query is read
as the same tree, or as nothing if there is no tree. -/
theorem parse_canonical (hd : d.check = .ok ()) (h : d.parse q = .ok Q) :
    d.parse (Q.canonical d) = .ok Q := by
  have hd := check_eq_ok_iff.mp hd
  obtain ⟨-, ts, -, ⟨-, rfl⟩ | ⟨p, -, hdepth, rfl⟩⟩ := parse_eq_ok_iff.mp h
  · exact parse_nil d
  · exact parse_of_writes hd (Node.writes hd (writable_of_parse hd h)) hdepth

/-- The query `NOT a b OR f x[op]:AND` has two values that are written in quotes, and a field
specification with white space in it. -/
theorem parse_canonical_standard :
    Dialect.standard.check = .ok () ∧
    Dialect.standard.parse "NOT a b OR f x[op]:AND".toList
      = .ok ⟨some (.or (.not (.term { value := "a b".toList }))
          (.term { value := "AND".toList, field := some "f x".toList,
                   operator := some "op".toList }))⟩ ∧
    Dialect.standard.parse "(NOT \"a b\" OR f x[op]:\"AND\")".toList
      = .ok ⟨some (.or (.not (.term { value := "a b".toList }))
          (.term { value := "AND".toList, field := some "f x".toList,
                   operator := some "op".toList }))⟩ := by
  have hparse : Dialect.standard.parse "NOT a b OR f x[op]:AND".toList
      = .ok ⟨some (.or (.not (.term { value := "a b".toList }))
          (.term { value := "AND".toList, field := some "f x".toList,
                   operator := some "op".toList }))⟩ := by
    decide +kernel
  exact ⟨rfl, hparse, parse_canonical rfl hparse⟩

end BoolQuery
