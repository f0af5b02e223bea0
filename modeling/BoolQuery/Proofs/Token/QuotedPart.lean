import BoolQuery.Proofs.Token.Swapped

/-!
# A Quoted Part in a Scan

Up to a quote that opens, the scan does not look behind it: a quote ends words, so no keyword
reaches over it. The quoted part itself is passed over in one turn. So two queries that differ
in one quoted part are scanned alike: up to the quote they are the same, and from there on the
two scans go side by side.

## Main definitions

* `Dialect.Aligned`: the places in the two queries that belong together.

## Main results

* `Scanner.step_append_quote`: a turn does not look behind a quote.
* `Scanner.run_append_quote`: a scan reaches a quote that opens, or fails before.
* `scan_swapped`: the tokens of two queries that differ in a quoted part.
-/

namespace BoolQuery

open Dialect

variable {d : Dialect} {P : Nat → Nat → Prop} {p x y t u : Text}

/-! ### Places -/

/-- The places that belong together in two queries that begin with `p` and go on the same behind
`x` in quotes and behind `y` in quotes: up to the opening quote those with the same distance from
the start, and from the closing quote on those with the same distance from there. -/
def Dialect.Aligned (d : Dialect) (p x y : Text) (n n' : Nat) : Prop :=
  n ≤ Text.byteSize p ∧ n' = n ∨
    ∃ k, n = Text.byteSize (p ++ d.quote :: (x ++ [d.quote])) + k ∧
      n' = Text.byteSize (p ++ d.quote :: (y ++ [d.quote])) + k

theorem aligned_fore {n : Nat} (h : n ≤ Text.byteSize p) : d.Aligned p x y n n :=
  .inl ⟨h, rfl⟩

theorem aligned_aft (k : Nat) :
    d.Aligned p x y (Text.byteSize (p ++ d.quote :: (x ++ [d.quote])) + k)
      (Text.byteSize (p ++ d.quote :: (y ++ [d.quote])) + k) :=
  .inr ⟨k, rfl, rfl⟩

/-! ### Up to a quote -/

/-- Whether a keyword stands at the front of a text does not depend on what is behind a
quote. -/
theorem Dialect.Sound.keywordAt?_append_quote (hd : d.Sound) (t u : Text) :
    d.keywordAt? (t ++ d.quote :: u)
      = (d.keywordAt? t).map fun found => (found.1, found.2 ++ d.quote :: u) := by
  have hends : ∀ w : Text, (w ++ d.quote :: u).head?.all d.endsWord = w.head?.all d.endsWord := by
    intro w
    cases w <;> simp [endsWord]
  ext found
  obtain ⟨op, rest⟩ := found
  rw [hd.keywordAt?_eq_some_iff_append, Option.map_eq_some_iff]
  constructor
  · rintro ⟨heq, hend⟩
    rcases List.append_eq_append_iff.mp heq with ⟨z, hz, hrest⟩ | ⟨z, rfl, rfl⟩
    · cases z with
      | nil =>
          rw [List.append_nil] at hz
          refine ⟨(op, []), hd.keywordAt?_eq_some_iff_append.mpr ⟨by simp [hz], rfl⟩, ?_⟩
          simpa using hrest
      | cons c z =>
          -- the quote would be in the keyword
          obtain ⟨rfl, -⟩ := List.cons.inj hrest
          exact absurd (by rw [hz]; simp) (hd.quote_notMem_keyword op)
    · exact ⟨(op, z), hd.keywordAt?_eq_some_iff_append.mpr ⟨rfl, hends z ▸ hend⟩, rfl⟩
  · rintro ⟨⟨op', z⟩, hop, hfound⟩
    obtain ⟨rfl, hend⟩ := hd.keywordAt?_eq_some_iff_append.mp hop
    obtain ⟨rfl, rfl⟩ := Prod.mk.inj hfound
    exact ⟨by simp, (hends z).trans hend⟩

/-- A text that ends outside quotes and begins with a quote has the quote that ends the quoted
part. -/
theorem exists_of_outside_quote (hout : d.Outside (d.quote :: t)) :
    ∃ content after, t = content ++ d.quote :: after ∧ d.quote ∉ content ∧ d.Outside after := by
  have hmem : d.quote ∈ t := by
    by_contra hmem
    simp [Outside, List.count_eq_zero.mpr hmem] at hout
  obtain ⟨content, after, rfl, hcontent⟩ := List.eq_append_cons_of_mem hmem
  refine ⟨content, after, rfl, hcontent, ?_⟩
  have hpart : d.Outside (d.quote :: (content ++ [d.quote])) := by
    simp [Outside, List.count_eq_zero.mpr hcontent]
  have heq : d.quote :: (content ++ d.quote :: after)
      = d.quote :: (content ++ [d.quote]) ++ after := by simp
  rw [heq] at hout
  exact hpart.append_iff.mp hout

namespace Scanner

variable {s s' : Scanner} {c : Char} {rest : Text}

/-- **A turn does not look behind a quote that opens.** -/
theorem step_append_quote (hd : d.Sound) (s : Scanner) (hout : d.Outside (c :: t)) (u : Text) :
    s.step d c (t ++ d.quote :: u)
      = (s.step d c t).map fun r => (r.1, r.2 ++ d.quote :: u) := by
  have hmap : ∀ {r : Except ParseError Scanner} {w : Text},
      r.map (·, w ++ d.quote :: u)
        = (r.map (·, w)).map fun r => (r.1, r.2 ++ d.quote :: u) := by
    intro r w
    cases r <;> rfl
  by_cases hquote : c = d.quote
  · subst hquote
    obtain ⟨content, after, rfl, hcontent, -⟩ := exists_of_outside_quote hout
    rw [step_quoted s hcontent, List.append_assoc, List.cons_append, step_quoted s hcontent]
    rfl
  rw [step, step, if_neg hquote, if_neg hquote]
  split
  · exact hmap
  have hkeyword : (if s.atWordStart then d.keywordAt? (c :: (t ++ d.quote :: u)) else none)
      = (if s.atWordStart then d.keywordAt? (c :: t) else none).map
          fun found => (found.1, found.2 ++ d.quote :: u) := by
    rw [← List.cons_append, hd.keywordAt?_append_quote]
    split <;> rfl
  rw [hkeyword]
  cases if s.atWordStart then d.keywordAt? (c :: t) else none with
  | some found => exact hmap
  | none =>
      simp only [Option.map_none]
      split
      · cases s.operand.startField d s.offset <;> rfl
      · rfl

/-- A turn that begins outside quotes ends outside quotes. -/
theorem outside_of_step (hd : d.Sound) {r : Scanner × Text} (h : s.step d c t = .ok r)
    (hout : d.Outside (c :: t)) : d.Outside r.2 := by
  have hpart : ∀ part rest : Text, d.quote ∉ part → c :: t = part ++ rest → d.Outside rest := by
    intro part rest hpart heq
    rw [heq] at hout
    exact (outside_of_notMem hpart).append_iff.mp hout
  by_cases hquote : c = d.quote
  · subst hquote
    obtain ⟨content, after, rfl, hcontent, hafter⟩ := exists_of_outside_quote hout
    rw [step_quoted s hcontent] at h
    obtain rfl := Except.ok.inj h
    exact hafter
  have hrest : d.Outside t := hpart [c] t (by simpa using Ne.symm hquote) rfl
  rw [step, if_neg hquote] at h
  split at h
  · exact eq_of_map_eq_ok h ▸ hrest
  split at h
  · next op after hkey =>
    split at hkey
    · obtain ⟨heq, -⟩ := hd.keywordAt?_eq_some_iff_append.mp hkey
      exact eq_of_map_eq_ok h ▸ hpart _ after (hd.quote_notMem_keyword op) heq
    · cases hkey
  split at h
  · exact eq_of_map_eq_ok h ▸ hrest
  · obtain rfl := Except.ok.inj h
    exact hrest

/-- **A scan reaches a quote that opens, or fails before it**, whatever is behind the quote. -/
theorem run_append_quote (hd : d.Sound) {s : Scanner} {t : Text} (hout : d.Outside t)
    (h : s.Swapped P x y 0 s)
    (hp : ∀ k ≤ Text.byteSize t, P (s.offset + k) (s.offset + k)) :
    (∃ e, ParseError.Shifted P e e ∧ ∀ u, s.run d (t ++ d.quote :: u) = .error e) ∨
    ∃ s', Moved P x y 0 s s (Text.byteSize t) s' s' ∧
      ∀ u, s.run d (t ++ d.quote :: u) = s'.run d (d.quote :: u) := by
  induction hlen : t.length using Nat.strong_induction_on generalizing s t with
  | _ len ih =>
    subst hlen
    cases t with
    | nil => exact .inr ⟨s, ⟨h, rfl, rfl⟩, fun u => rfl⟩
    | cons c rest =>
        have hturn := h.step (d := d) (hp 0 (Nat.zero_le _)) c rest
        have happend := step_append_quote hd s hout
        cases hstep : s.step d c rest with
        | error e =>
            rw [hstep] at hturn happend
            cases hturn with
            | error he => exact .inl ⟨e, he, fun u => run_cons_of_error (happend u)⟩
        | ok r =>
            rw [hstep] at hturn happend
            cases hturn with
            | ok hr =>
                obtain ⟨-, size, hsize, hmoved⟩ := hr
                have hlt : r.2.length < (c :: rest).length :=
                  Nat.lt_succ_of_le (length_le_of_step hstep)
                have hrun : ∀ u, s.run d (c :: rest ++ d.quote :: u)
                    = r.1.run d (r.2 ++ d.quote :: u) := fun u => run_cons_of_ok (happend u)
                have hp' : ∀ k ≤ Text.byteSize r.2, P (r.1.offset + k) (r.1.offset + k) := by
                  intro k hk
                  rw [hmoved.left, Nat.add_assoc]
                  exact hp _ (by omega)
                simp only [hrun]
                rcases ih _ hlt (outside_of_step hd hstep hout) hmoved.swapped hp' rfl with
                  hfail | ⟨s', hmoved', hreach⟩
                · exact .inl hfail
                · refine .inr ⟨s', ⟨hmoved'.swapped, ?_, ?_⟩, hreach⟩
                  · rw [hmoved'.left, hmoved.left, hsize, Nat.add_assoc]
                  · rw [hmoved'.left, hmoved.left, hsize, Nat.add_assoc]

end Scanner

/-! ### Over the quoted part -/

/-- The scan begins with nothing. -/
theorem Scanner.Swapped.start : Scanner.Swapped P x y 0 {} {} :=
  ⟨rfl, 0, 0, .empty, .nil, rfl⟩

/-- The tokens of a scan. -/
theorem scan_eq_map (d : Dialect) (q : Text) :
    scan d q = (Scanner.run {} d q).map fun s => s.found.reverse := by
  rw [scan]
  cases Scanner.run {} d q <;> rfl

/-- **Two queries that differ in a quoted part** are scanned alike: their tokens differ in the
value of one term, and in their places. -/
theorem scan_swapped (hd : d.Sound) (hout : d.Outside p) (hx : d.quote ∉ x) (hy : d.quote ∉ y)
    (t : Text) :
    Alike (ParseError.Shifted (d.Aligned p x y)) (Token.RowSwapped (d.Aligned p x y) x y 1)
      (scan d (p ++ d.quote :: (x ++ d.quote :: t)))
      (scan d (p ++ d.quote :: (y ++ d.quote :: t))) := by
  have hfore : ∀ k ≤ Text.byteSize p, d.Aligned p x y (0 + k) (0 + k) := by
    intro k hk
    rw [Nat.zero_add]
    exact aligned_fore hk
  have hstart : Scanner.Swapped (d.Aligned p x y) x y 0 {} {} := .start
  rw [scan_eq_map, scan_eq_map]
  rcases Scanner.run_append_quote hd hout hstart hfore with ⟨e, he, hrun⟩ | ⟨s, hmoved, hrun⟩
  · rw [hrun, hrun]
    exact .error he
  · rw [hrun, hrun, Scanner.run_cons_of_ok (Scanner.step_quoted s hx t),
      Scanner.run_cons_of_ok (Scanner.step_quoted s hy t)]
    obtain ⟨k, m, hoperand, hfound, hsum⟩ := hmoved.swapped.split
    obtain ⟨rfl, rfl⟩ := Nat.add_eq_zero_iff.mp hsum
    have hoffset : s.offset = Text.byteSize p := by simpa using hmoved.left
    have hopen : d.Aligned p x y s.offset s.offset := aligned_fore (Nat.le_of_eq hoffset)
    refine Alike.map (Scanner.Swapped.run ?_ (fun k => ?_) t) fun r r' hr =>
      Token.RowSwapped.reverse hr
    · exact ⟨rfl, 1, 0, hoperand.pushQuoted_swap hopen, hfound, rfl⟩
    · simpa [hoffset, Nat.add_assoc] using aligned_aft (d := d) (p := p) (x := x) (y := y) k

end BoolQuery
