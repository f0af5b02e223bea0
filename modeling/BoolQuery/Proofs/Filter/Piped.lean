import BoolQuery.Proofs.Filter.Partition
import BoolQuery.Proofs.Query.Match

/-!
# Filters in a Pipe

What a filter writes are lines again, and a second filter that reads them finds the lines that the
first one has selected, unless dropping a carriage return uncovers another one. So two filters in a
pipe select the lines that both of them select, in whichever order they come, and for trees this is
the selection of their conjunction.

## Main results

* `Bytes.lines_ofLines`: written lines are found again.
* `Filter.selected_ofLines`, `Filter.scan_scan`: what two filters in a pipe select.
* `Filter.scan_piped`: two filters in a pipe.
-/

namespace BoolQuery

namespace Bytes

variable {lines : List Bytes}

/-- The pieces of written lines. -/
theorem pieces_ofLines (hfeed : ∀ line ∈ lines, lineFeed ∉ line) :
    (ofLines lines).pieces = lines := by
  induction lines with
  | nil => exact pieces_nil
  | cons line lines ih =>
      obtain ⟨hline, hlines⟩ := List.forall_mem_cons.mp hfeed
      rw [ofLines, List.flatMap_cons, List.append_assoc, List.singleton_append,
        pieces_append_lineFeed, List.splitOn_eq_singleton hline, List.singleton_append]
      exact congrArg (line :: ·) (ih hlines)

/-- **Written lines are found again**, if none of them ends in a carriage return. -/
theorem lines_ofLines (hfeed : ∀ line ∈ lines, lineFeed ∉ line)
    (hreturn : ∀ line ∈ lines, line.getLast? ≠ some carriageReturn) :
    (ofLines lines).lines = lines := by
  rw [Bytes.lines, pieces_ofLines hfeed]
  refine (List.map_congr_left fun line hline => ?_).trans (List.map_id lines)
  exact if_neg (hreturn line hline)

/-- Lines have no line feed in them. -/
theorem lineFeed_notMem_of_mem_lines {bytes line : Bytes} (h : line ∈ bytes.lines) :
    lineFeed ∉ line := by
  obtain ⟨pieces, hcut⟩ := exists_cut bytes
  rw [hcut.lines_eq] at h
  obtain ⟨piece, hpiece, rfl⟩ := List.mem_map.mp h
  exact hcut.notMem_lineOf piece hpiece

/-- Without a second carriage return before it, none is uncovered by dropping the last one. -/
theorem getLast?_dropReturn {piece : Bytes} (h : ¬ [carriageReturn, carriageReturn] <:+ piece) :
    (dropReturn piece).getLast? ≠ some carriageReturn := by
  rw [dropReturn]
  split
  · next hlast =>
    intro hbefore
    obtain ⟨front, rfl⟩ := List.getLast?_eq_some_iff.mp hlast
    rw [List.dropLast_concat] at hbefore
    obtain ⟨front, rfl⟩ := List.getLast?_eq_some_iff.mp hbefore
    exact h ⟨front, by rw [List.append_assoc]; rfl⟩
  · next hlast => exact hlast

end Bytes

namespace Filter

variable (f g : Filter) {bytes : Bytes}

/-- **What two filters in a pipe select** are the lines that both of them select. -/
theorem selected_ofLines
    (hreturn : ∀ piece ∈ bytes.pieces, ¬ [Bytes.carriageReturn, Bytes.carriageReturn] <:+ piece) :
    g.selected (Bytes.ofLines (f.selected bytes)) =
      bytes.lines.filter fun line => f.selects line && g.selects line := by
  have hlines : (Bytes.ofLines (f.selected bytes)).lines = f.selected bytes := by
    refine Bytes.lines_ofLines (fun line hline => ?_) fun line hline => ?_
    · exact Bytes.lineFeed_notMem_of_mem_lines (List.mem_filter.mp hline).1
    · obtain ⟨piece, hpiece, rfl⟩ := List.mem_map.mp (List.mem_filter.mp hline).1
      exact Bytes.getLast?_dropReturn (hreturn piece hpiece)
  rw [selected, hlines, selected, List.filter_filter]
  exact List.filter_congr fun line _ => Bool.and_comm _ _

/-- What a filter finds behind another one that writes what it selects. -/
theorem scan_ofLines (hf : f.countOnly = false)
    (hreturn : ∀ piece ∈ bytes.pieces, ¬ [Bytes.carriageReturn, Bytes.carriageReturn] <:+ piece) :
    g.scan (f.scan bytes).output =
      let both := bytes.lines.filter fun line => f.selects line && g.selects line
      { count := both.length, output := if g.countOnly then [] else Bytes.ofLines both } := by
  have houtput : (f.scan bytes).output = Bytes.ofLines (f.selected bytes) := by
    rw [f.scan_eq, hf]
    rfl
  rw [houtput, g.scan_eq, f.selected_ofLines g hreturn]

/-- A filter that selects what two others both select finds the same as these in a pipe. -/
theorem scan_scan (h : Filter) (hf : f.countOnly = false) (hcount : h.countOnly = g.countOnly)
    (hselects : ∀ line, h.selects line = (f.selects line && g.selects line))
    (hreturn : ∀ piece ∈ bytes.pieces, ¬ [Bytes.carriageReturn, Bytes.carriageReturn] <:+ piece) :
    g.scan (f.scan bytes).output = h.scan bytes := by
  rw [f.scan_ofLines g hf hreturn, h.scan_eq, selected, hcount, funext hselects]

/-- **Two filters in a pipe.** When no line ends in two carriage returns, filtering what a filter
for one tree has written for another tree is filtering for their conjunction, whether the lines are
written in the end or counted. So a second pass with the same query changes nothing, and two
queries may come in either order. -/
theorem scan_piped (bytes : Bytes)
    (hreturn : ∀ piece ∈ bytes.pieces, ¬ [Bytes.carriageReturn, Bytes.carriageReturn] <:+ piece) :
    (∀ (t₁ t₂ : Node) (countOnly : Bool),
      scan { query := ⟨some t₂⟩, countOnly } (scan { query := ⟨some t₁⟩ } bytes).output =
        scan { query := ⟨some (.and t₁ t₂)⟩, countOnly } bytes) ∧
    (∀ (q : Query) (countOnly : Bool),
      scan { query := q, countOnly } (scan { query := q } bytes).output =
        scan { query := q, countOnly } bytes) ∧
    ∀ (q₁ q₂ : Query) (countOnly : Bool),
      scan { query := q₂, countOnly } (scan { query := q₁ } bytes).output =
        scan { query := q₁, countOnly } (scan { query := q₂ } bytes).output := by
  refine ⟨fun t₁ t₂ countOnly => ?_, fun q countOnly => ?_, fun q₁ q₂ countOnly => ?_⟩
  · exact scan_scan _ _ _ rfl rfl (fun line => by simp [selects, Node.accepts_and]) hreturn
  · exact scan_scan _ _ _ rfl rfl (fun line => by simp [selects]) hreturn
  · rw [scan_ofLines _ _ rfl hreturn, scan_ofLines _ _ rfl hreturn]
    simp only [selects, Bool.and_comm]

/-- Of a line with an ill-formed place, an empty one and one that ends in a carriage return, the
filter for `a` and then for `b` leaves the first and the last one, in the end counted. -/
theorem scan_piped_illFormed :
    (∀ piece ∈ Bytes.pieces (0xff :: Utf8.encode "a b\r\n\r\na\nba\r".toList),
      ¬ [Bytes.carriageReturn, Bytes.carriageReturn] <:+ piece) ∧
    scan { query := ⟨some (.term { value := "b".toList })⟩, countOnly := true }
      (scan { query := ⟨some (.term { value := "a".toList })⟩ }
        (0xff :: Utf8.encode "a b\r\n\r\na\nba\r".toList)).output = { count := 2, output := [] } := by
  have hreturn : ∀ piece ∈ Bytes.pieces (0xff :: Utf8.encode "a b\r\n\r\na\nba\r".toList),
      ¬ [Bytes.carriageReturn, Bytes.carriageReturn] <:+ piece := by decide +kernel
  refine ⟨hreturn, ((scan_piped _ hreturn).1 _ _ _).trans ?_⟩
  decide +kernel

/-- A line that ends in two carriage returns loses one in each pass. -/
example : (scan { query := ⟨some (.term { value := "a".toList })⟩ }
    (Utf8.encode "a\r\r\n".toList)).output = Utf8.encode "a\r\n".toList := by decide +kernel

end Filter

end BoolQuery
