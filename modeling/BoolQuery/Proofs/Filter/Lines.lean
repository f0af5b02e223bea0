import BoolQuery.Filter
import Mathlib.Data.List.Basic

/-!
# Lines of Bytes

Bytes that end in a line feed, or are no bytes at all, are whole lines: what comes behind them
begins a line of its own. So the lines of whole lines and whatever comes behind them are the
lines of the one and the lines of the other, and so is what a filter selects.

## Main definitions

* `Bytes.WholeLines`: bytes behind which a line begins.
* `Bytes.ofLines`: lines as they are written.
* `Filter.selected`: the lines that a filter selects.

## Main results

* `Bytes.lines_append`: the lines of whole lines and what comes behind them.
* `Filter.scan_eq`: the result of a filter, by its selected lines.
* `Filter.selected_flatten`: the selected lines of several contents, one behind the other.
-/

namespace BoolQuery

namespace Bytes

variable {a b : Bytes}

/-- A line begins behind the bytes: there are none, or the last one is a line feed. -/
def WholeLines (bytes : Bytes) : Prop :=
  bytes = [] ∨ bytes.getLast? = some lineFeed

instance (bytes : Bytes) : Decidable bytes.WholeLines :=
  inferInstanceAs (Decidable (_ ∨ _))

/-- Lines as they are written, each with a line feed behind it. -/
def ofLines (lines : List Bytes) : Bytes :=
  lines.flatMap fun line => line ++ [lineFeed]

@[simp] theorem ofLines_append (ls ls' : List Bytes) :
    ofLines (ls ++ ls') = ofLines ls ++ ofLines ls' :=
  List.flatMap_append

@[simp] theorem pieces_nil : pieces [] = [] := by
  simp [pieces]

/-- Behind a line feed, pieces are those of what follows. -/
theorem pieces_append_lineFeed (a b : Bytes) :
    pieces (a ++ lineFeed :: b) = a.splitOn lineFeed ++ pieces b := by
  have hne : b.splitOn lineFeed ≠ [] := List.splitOn_ne_nil lineFeed b
  rw [pieces, pieces, List.splitOn_append_cons_self]
  simp only [List.getLast?_append_of_ne_nil _ hne, List.dropLast_append_of_ne_nil hne]
  split <;> rfl

/-- The pieces of whole lines and what comes behind them. -/
theorem pieces_append (h : a.WholeLines) : pieces (a ++ b) = pieces a ++ pieces b := by
  rcases h with rfl | hlast
  · simp
  · obtain ⟨front, rfl⟩ := List.getLast?_eq_some_iff.mp hlast
    rw [List.append_assoc, List.singleton_append, pieces_append_lineFeed, pieces_append_lineFeed,
      pieces_nil, List.append_nil]

/-- **The lines of whole lines and what comes behind them** are the lines of the one and the
lines of the other. -/
theorem lines_append (h : a.WholeLines) : lines (a ++ b) = lines a ++ lines b := by
  rw [lines, pieces_append h, List.map_append]
  rfl

end Bytes

namespace Filter

variable (f : Filter)

/-- The lines that the filter selects. -/
def selected (bytes : Bytes) : List Bytes :=
  bytes.lines.filter f.selects

@[simp] theorem selected_nil : f.selected [] = [] := by
  simp [selected, Bytes.lines]

/-- The result of a filter is the number of its selected lines, and what is written is these
lines, unless they are only counted. -/
theorem scan_eq (bytes : Bytes) : f.scan bytes =
    { count := (f.selected bytes).length
      output := if f.countOnly then [] else Bytes.ofLines (f.selected bytes) } :=
  rfl

/-- The selected lines of whole lines and what comes behind them. -/
theorem selected_append {a b : Bytes} (h : a.WholeLines) :
    f.selected (a ++ b) = f.selected a ++ f.selected b := by
  rw [selected, Bytes.lines_append h, List.filter_append]
  rfl

/-- **The selected lines of several contents, one behind the other**, are those of each of them,
when all but the last are whole lines. -/
theorem selected_flatten {contents : List Bytes}
    (h : ∀ bytes ∈ contents.dropLast, Bytes.WholeLines bytes) :
    f.selected contents.flatten = contents.flatMap f.selected := by
  induction contents with
  | nil => simp
  | cons bytes rest ih =>
      cases rest with
      | nil => simp
      | cons next rest =>
          obtain ⟨hbytes, hrest⟩ := List.forall_mem_cons.mp h
          rw [List.flatten_cons, f.selected_append hbytes, ih hrest]
          rfl

end Filter

end BoolQuery
