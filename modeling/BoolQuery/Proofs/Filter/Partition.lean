import BoolQuery.Proofs.Filter.Lines
import BoolQuery.Proofs.Text.Legible

/-!
# Selected and Rejected Lines

A reader takes bytes in pieces: up to and with the next line feed, or all that is left. There is
one way to cut bytes like this, and the lines are what the pieces hold when the line feed, and then
one carriage return, is taken off their ends. A filter passes the lines one after the other and
changes its tally with each; what comes out in the end is the selected lines in their order. The
lines that a filter selects and those that it selects when it is inverted are put together all the
lines, each of them once and in its place.

## Main definitions

* `Bytes.Cut`: bytes cut behind each line feed.
* `Bytes.lineOf`: the line in a piece.
* `Bytes.Ended`: a line and the piece it is in, by what ends the line.
* `Filter.extend`: the tally with one more line.
* `Interleaves`: two rows that make up a third, each in its order.

## Main results

* `Bytes.exists_cut`, `Bytes.Cut.unique`: there is one way to cut bytes.
* `Bytes.ended_iff`: a piece has one line in it.
* `Bytes.Cut.lines_eq`: the lines are those of the pieces.
* `Filter.scan_eq_foldl`: the tally behind the last line is the result.
* `Filter.scan_partition`: the selected and the rejected lines.
-/

namespace BoolQuery

namespace Bytes

variable {bytes : Bytes} {pieces pieces' : List Bytes}

/-- The bytes cut behind each line feed: every piece but the last ends in a line feed and has no
other, and the last one may lack it but is not empty. -/
inductive Cut : Bytes → List Bytes → Prop where
  /-- There is nothing to cut. -/
  | nil : Cut [] []
  /-- Behind the last line feed there is a rest. -/
  | rest {piece : Bytes} (hne : piece ≠ []) (hfeed : lineFeed ∉ piece) : Cut piece [piece]
  /-- A piece up to the first line feed stands before the others. -/
  | feed {front rest : Bytes} {pieces : List Bytes} (hfeed : lineFeed ∉ front)
    (hrest : Cut rest pieces) : Cut (front ++ lineFeed :: rest) ((front ++ [lineFeed]) :: pieces)

/-- A piece without a line feed at its end. -/
def dropFeed (piece : Bytes) : Bytes :=
  if piece.getLast? = some lineFeed then piece.dropLast else piece

/-- The line in a piece: without a line feed at the end, and then without a carriage return. -/
def lineOf (piece : Bytes) : Bytes :=
  dropReturn (dropFeed piece)

@[simp] theorem dropFeed_append_lineFeed (front : Bytes) :
    dropFeed (front ++ [lineFeed]) = front := by
  simp [dropFeed]

/-- Without a line feed in it, a piece stays as it is. -/
theorem dropFeed_of_notMem {piece : Bytes} (hfeed : lineFeed ∉ piece) : dropFeed piece = piece :=
  if_neg fun hlast => hfeed (List.mem_of_getLast? hlast)

/-- The piece is the line with what ends it: a carriage return and a line feed, one of them, or
neither. A carriage return at the end of a piece, or in front of its line feed, is never part of
the line. -/
inductive Ended (line : Bytes) : (piece : Bytes) → Prop where
  /-- The line is ended by a carriage return and a line feed. -/
  | returnFeed : Ended line (line ++ [carriageReturn, lineFeed])
  /-- The line is ended by a line feed alone. -/
  | feedOnly (hreturn : line.getLast? ≠ some carriageReturn) : Ended line (line ++ [lineFeed])
  /-- The line is ended by a carriage return alone. -/
  | returnOnly : Ended line (line ++ [carriageReturn])
  /-- The line is ended by neither. -/
  | bare (hreturn : line.getLast? ≠ some carriageReturn) (hfeed : line.getLast? ≠ some lineFeed) :
    Ended line line

/-- **A piece has one line in it**, whatever ends the line. -/
theorem ended_iff {line piece : Bytes} : Ended line piece ↔ line = lineOf piece := by
  constructor
  · intro h
    cases h with
    | returnFeed => simp [lineOf, dropFeed, dropReturn]
    | feedOnly hreturn => simp [lineOf, dropReturn, hreturn]
    | returnOnly => simp [lineOf, dropFeed, dropReturn, lineFeed, carriageReturn]
    | bare hreturn hfeed => simp [lineOf, dropFeed, dropReturn, hreturn, hfeed]
  · rintro rfl
    -- What is dropped is put back: first the line feed, then the carriage return in front of it.
    by_cases hfeed : piece.getLast? = some lineFeed
    · obtain ⟨front, rfl⟩ := List.getLast?_eq_some_iff.mp hfeed
      rw [lineOf, dropFeed_append_lineFeed, dropReturn]
      split
      · next hreturn =>
        obtain ⟨line, rfl⟩ := List.getLast?_eq_some_iff.mp hreturn
        simpa using Ended.returnFeed
      · next hreturn => exact .feedOnly hreturn
    · rw [lineOf, dropFeed, if_neg hfeed, dropReturn]
      split
      · next hreturn =>
        obtain ⟨line, rfl⟩ := List.getLast?_eq_some_iff.mp hreturn
        simpa using Ended.returnOnly
      · next hreturn => exact .bare hreturn hfeed

/-- Dropping the carriage return at the end adds nothing to a line. -/
theorem dropReturn_subset (line : Bytes) : dropReturn line ⊆ line := by
  rw [dropReturn]
  split
  · exact line.dropLast_subset
  · exact List.Subset.refl line

/-- **Bytes can be cut**: a byte in front begins a piece of its own if it is a line feed, and else
becomes part of the first piece. -/
theorem exists_cut (bytes : Bytes) : ∃ pieces, Cut bytes pieces := by
  induction bytes with
  | nil => exact ⟨[], .nil⟩
  | cons b bytes ih =>
      obtain ⟨pieces, hcut⟩ := ih
      by_cases hb : b = lineFeed
      · have hnil : lineFeed ∉ ([] : Bytes) := List.not_mem_nil
        exact ⟨[lineFeed] :: pieces, hb ▸ .feed hnil hcut⟩
      · cases hcut with
        | nil => exact ⟨[[b]], .rest (by simp) (by simpa using Ne.symm hb)⟩
        | rest hne hfeed => exact ⟨[b :: bytes], .rest (by simp) (by simp [Ne.symm hb, hfeed])⟩
        | @feed front rest pieces hfeed hrest =>
            have hfront : lineFeed ∉ b :: front := by simp [Ne.symm hb, hfeed]
            exact ⟨(b :: front ++ [lineFeed]) :: pieces, .feed hfront hrest⟩

namespace Cut

/-- **Bytes can be cut in one way only.** -/
theorem unique (h : Cut bytes pieces) (h' : Cut bytes pieces') : pieces = pieces' := by
  induction h generalizing pieces' with
  | nil =>
      generalize hnil : ([] : Bytes) = bytes at h'
      cases h' with
      | nil => rfl
      | rest hne => exact absurd hnil.symm hne
      | feed => simp at hnil
  | rest hne hfeed =>
      cases h' with
      | nil => exact absurd rfl hne
      | rest => rfl
      | feed => simp at hfeed
  | @feed front rest pieces hfeed hrest ih =>
      generalize hbytes : front ++ lineFeed :: rest = bytes at h'
      cases h' with
      | nil => simp at hbytes
      | rest _ hfeed' => exact absurd (hbytes ▸ by simp) hfeed'
      | feed hfeed' hrest' =>
          obtain ⟨rfl, rfl⟩ := eq_of_append_cons hfeed hfeed' hbytes
          rw [ih hrest']

/-- The pieces without their line feeds. -/
theorem pieces_eq (h : Cut bytes pieces) : bytes.pieces = pieces.map dropFeed := by
  induction h with
  | nil => exact pieces_nil
  | @rest piece hne hfeed =>
      rw [Bytes.pieces, List.splitOn_eq_singleton hfeed]
      simp [hne, dropFeed_of_notMem hfeed]
  | @feed front rest pieces hfeed hrest ih =>
      rw [pieces_append_lineFeed, List.splitOn_eq_singleton hfeed, ih]
      simp

/-- **The lines are those of the pieces.** -/
theorem lines_eq (h : Cut bytes pieces) : bytes.lines = pieces.map lineOf := by
  rw [lines, h.pieces_eq, List.map_map]
  rfl

/-- No piece has a line feed but at its end. -/
theorem notMem_dropFeed (h : Cut bytes pieces) : ∀ piece ∈ pieces, lineFeed ∉ dropFeed piece := by
  induction h with
  | nil => simp
  | rest hne hfeed => simpa [dropFeed_of_notMem hfeed] using hfeed
  | feed hfeed hrest ih => simpa [hfeed] using ih

/-- No line has a line feed in it. -/
theorem notMem_lineOf (h : Cut bytes pieces) : ∀ piece ∈ pieces, lineFeed ∉ lineOf piece :=
  fun piece hpiece hmem => h.notMem_dropFeed piece hpiece (dropReturn_subset _ hmem)

end Cut

/-- Of lines without line feeds, as many line feeds are written as there are lines. -/
theorem count_lineFeed_ofLines {lines : List Bytes} (h : ∀ line ∈ lines, lineFeed ∉ line) :
    (ofLines lines).count lineFeed = lines.length := by
  induction lines with
  | nil => rfl
  | cons line lines ih =>
      obtain ⟨hline, hlines⟩ := List.forall_mem_cons.mp h
      rw [ofLines, List.flatMap_cons, List.count_append, List.count_append,
        List.count_eq_zero_of_not_mem hline]
      rw [ofLines] at ih
      rw [ih hlines, List.count_singleton_self, List.length_cons]
      omega

end Bytes

/-! ### Interleaved rows -/

/-- The third row is made up of the members of the other two, each of these in its order. -/
inductive Interleaves {α : Type} : List α → List α → List α → Prop where
  /-- There are no members. -/
  | nil : Interleaves [] [] []
  /-- The first member is that of the left row. -/
  | left {a : α} {as bs all : List α} (h : Interleaves as bs all) :
      Interleaves (a :: as) bs (a :: all)
  /-- The first member is that of the right row. -/
  | right {b : α} {as bs all : List α} (h : Interleaves as bs all) :
      Interleaves as (b :: bs) (b :: all)

namespace Interleaves

variable {α : Type} {as bs all : List α}

/-- No member is lost, and none comes twice. -/
theorem length_add (h : Interleaves as bs all) : as.length + bs.length = all.length := by
  induction h with
  | nil => rfl
  | left h ih => rw [List.length_cons, List.length_cons, ← ih]; omega
  | right h ih => rw [List.length_cons, List.length_cons, ← ih]; omega

/-- The members that pass a test and those that do not are interleaved. -/
theorem filter (p : α → Bool) (all : List α) :
    Interleaves (all.filter p) (all.filter fun a => !p a) all := by
  induction all with
  | nil => exact .nil
  | cons a all ih =>
      cases hp : p a with
      | true => simpa [hp] using ih.left
      | false => simpa [hp] using ih.right

end Interleaves

/-! ### The filter -/

namespace Filter

variable (f : Filter)

/-- The tally with one more line: a line that is selected is counted, and it is written unless
lines are only counted. -/
def extend (s : Selection) (line : Bytes) : Selection :=
  if f.selects line then
    { count := s.count + 1
      output := if f.countOnly then s.output else s.output ++ (line ++ [Bytes.lineFeed]) }
  else s

/-- What several lines add to a tally. -/
theorem foldl_extend (s : Selection) (lines : List Bytes) : lines.foldl f.extend s =
    { count := s.count + (lines.filter f.selects).length
      output := s.output ++
        if f.countOnly then [] else Bytes.ofLines (lines.filter f.selects) } := by
  induction lines generalizing s with
  | nil => simp [Bytes.ofLines]
  | cons line lines ih =>
      rw [List.foldl_cons, ih, extend, List.filter_cons]
      cases f.selects line with
      | false => simp
      | true => cases f.countOnly <;> simp [Bytes.ofLines, Nat.add_assoc, Nat.add_comm 1]

/-- **The result is the tally behind the last line.** -/
theorem scan_eq_foldl (bytes : Bytes) :
    f.scan bytes = bytes.lines.foldl f.extend { count := 0, output := [] } := by
  rw [foldl_extend, scan_eq, selected]
  simp

/-- Inverted, a filter selects the other lines. -/
theorem selects_invert (q : Query) (line : Bytes) :
    ({ query := q, invert := true } : Filter).selects line
      = !({ query := q } : Filter).selects line := by
  simp [selects]

/-- **Selected and rejected lines.** There is one way to cut bytes behind each line feed, and the
lines are what the pieces hold without the line feed and then without a carriage return at their
ends; so each piece is its line with what ends it. A filter goes through the lines one after the
other. The lines that match are written by the filter, and the others by the inverted one; together,
in their order, these are all the lines, and so the two numbers add up. A filter that only counts
finds the same number and writes nothing, and else as many line feeds are written as lines are
counted. -/
theorem scan_partition (q : Query) (bytes : Bytes) :
    ∃ pieces, Bytes.Cut bytes pieces ∧ (∀ other, Bytes.Cut bytes other → other = pieces) ∧
      (∀ piece ∈ pieces, ∀ line, Bytes.Ended line piece ↔ line = Bytes.lineOf piece) ∧
      let lines := pieces.map Bytes.lineOf
      let selected := scan { query := q } bytes
      let rejected := scan { query := q, invert := true } bytes
      selected.count + rejected.count = lines.length ∧
      (∃ ls rs, Interleaves ls rs lines ∧
        selected = { count := ls.length, output := Bytes.ofLines ls } ∧
        rejected = { count := rs.length, output := Bytes.ofLines rs } ∧
        ∀ line ∈ lines, (line ∈ ls ↔ q.accepts (Utf8.decodeLossy line) = true) ∧
          (line ∈ rs ↔ q.accepts (Utf8.decodeLossy line) = false)) ∧
      (∀ invert, scan { query := q, invert, countOnly := true } bytes =
        { count := (scan { query := q, invert } bytes).count, output := [] }) ∧
      (∀ invert, (scan { query := q, invert } bytes).output.count Bytes.lineFeed =
        (scan { query := q, invert } bytes).count) ∧
      ∀ f : Filter, f.scan bytes = lines.foldl f.extend { count := 0, output := [] } := by
  obtain ⟨pieces, hcut⟩ := Bytes.exists_cut bytes
  refine ⟨pieces, hcut, fun other hother => hother.unique hcut,
    fun piece _ line => Bytes.ended_iff, ?_⟩
  intro lines selected rejected
  have hlines : bytes.lines = lines := hcut.lines_eq
  have hscan : ∀ f : Filter, f.scan bytes =
      { count := (lines.filter f.selects).length
        output := if f.countOnly then [] else Bytes.ofLines (lines.filter f.selects) } := by
    intro f
    rw [f.scan_eq, Filter.selected, hlines]
  have hrows := Interleaves.filter ({ query := q } : Filter).selects lines
  simp only [← selects_invert] at hrows
  refine ⟨?_, ⟨_, _, hrows, hscan _, hscan _, fun line hline => ?_⟩, fun invert => ?_,
    fun invert => ?_, fun f => ?_⟩
  · rw [← hrows.length_add]
    exact congrArg₂ (· + ·) (congrArg Selection.count (hscan _))
      (congrArg Selection.count (hscan _))
  · simp [hline, selects]
  · rw [hscan, hscan]
    rfl
  · rw [hscan]
    refine Bytes.count_lineFeed_ofLines fun line hline => ?_
    obtain ⟨piece, hpiece, rfl⟩ := List.mem_map.mp (List.mem_filter.mp hline).1
    exact hcut.notMem_lineOf piece hpiece
  · rw [f.scan_eq_foldl, hlines]

/-- Of these lines the second is empty, the third has a carriage return of its own in front of the
one that ends it, and the last is ended by a carriage return alone. The first and the last are
selected for `a`. -/
theorem scan_partition_returns :
    let bytes := Utf8.encode "xa\r\n\nb\r\r\na\r".toList
    let a : Query := ⟨some (.term { value := "a".toList })⟩
    scan { query := a } bytes = { count := 2, output := Utf8.encode "xa\na\n".toList } ∧
      scan { query := a, invert := true } bytes =
        { count := 2, output := Utf8.encode "\nb\r\n".toList } := by
  intro bytes a
  obtain ⟨pieces, -, hunique, -, -, -, -, -, hfold⟩ := scan_partition a bytes
  have hcut : Bytes.Cut bytes (["xa\r\n", "\n", "b\r\r\n", "a\r"].map (Utf8.encode ·.toList)) :=
    @Bytes.Cut.feed (Utf8.encode "xa\r".toList) _ _ (by decide) <|
      @Bytes.Cut.feed [] _ _ (by decide) <|
      @Bytes.Cut.feed (Utf8.encode "b\r\r".toList) _ _ (by decide) <|
      @Bytes.Cut.rest (Utf8.encode "a\r".toList) (by decide) (by decide)
  rw [hfold, hfold, ← hunique _ hcut]
  decide +kernel

end Filter

end BoolQuery
