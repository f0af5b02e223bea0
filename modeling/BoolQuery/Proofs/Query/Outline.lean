import BoolQuery.Proofs.Text.Legible
import BoolQuery.Query.Outline
import Mathlib.Data.List.Forall2

/-!
# Queries Are Told Apart by Their Outlines

In an outline each line is a node, and the lines follow the tree from the root, each node before
its children. Texts of terms cannot break this: in a quoted display they have no line feed and no
mark that is not escaped, and their labels are different, so that a line is legible up to its line
feed. As the name of a node tells how many children follow, the outline of a tree is legible by
structure, and queries with the same outline are the same.

## Main definitions

* `Node.preorder`: the nodes of a tree with their depths.
* `Node.label`: a node on one line.
* `Text.indentation`: the number of spaces in front of a line.

## Main results

* `Text.legible_quoted`, `Term.legible_display`, `Node.legible_rows`: quoted texts, terms and trees
  are legible.
* `Node.splitOn_outline`: the lines of an outline.
* `outline_unambiguous`: different queries have different outlines, of a line for each node.
-/

namespace BoolQuery

/-! ### Quoted texts -/

namespace Text

variable {c : Char} {t : Text}

/-- Reads a character back that has been written in a display. -/
def readQuotedEscape? : Text → Option (Char × Text) :=
  readEscape? [('0', '\x00'), ('t', '\t'), ('r', '\r'), ('n', '\n')] fun t =>
    some (Char.ofNat (hexValue (t.tail.takeWhile (· != '}'))), (t.dropWhile (· != '}')).tail)

/-- The digits of a number have no brace and no line feed among them. -/
theorem notMem_toDigits {n : Nat} :
    '}' ∉ Nat.toDigits 16 n ∧ '\n' ∉ Nat.toDigits 16 n := by
  constructor
  · intro h
    obtain ⟨k, hk⟩ := exists_digitChar_of_mem_toDigits h
    exact Nat.digitChar_ne '}' (by decide) hk.symm
  · intro h
    obtain ⟨k, hk⟩ := exists_digitChar_of_mem_toDigits h
    exact Nat.digitChar_ne '\n' (by decide) hk.symm

/-- A character that is written by number is read back. -/
theorem readQuotedEscape?_escapeByNumber (c : Char) (rest : Text) :
    readQuotedEscape? (escapeByNumber c ++ rest) = some (c, rest) := by
  have hdigits : ∀ k ∈ Nat.toDigits 16 c.toNat, (k != '}') = true := fun k hk =>
    bne_iff_ne.mpr fun heq => notMem_toDigits.1 (heq ▸ hk)
  have hread : readQuotedEscape? (escapeByNumber c ++ rest) =
      some (Char.ofNat (hexValue ((Nat.toDigits 16 c.toNat ++ '}' :: rest).takeWhile (· != '}'))),
        ('{' :: (Nat.toDigits 16 c.toNat ++ '}' :: rest)).dropWhile (· != '}') |>.tail) := by
    simp [readQuotedEscape?, readEscape?, escapeByNumber]
  rw [hread, List.takeWhile_append_of_pos hdigits, List.dropWhile_cons_of_pos (by decide),
    List.dropWhile_append_of_pos hdigits]
  simp [hexValue_toDigits]

/-- **Escapes in a display are read back.** -/
theorem readQuotedEscape?_escape (c : Char) (rest : Text) :
    readQuotedEscape? (escape '"' c ++ rest) = some (c, rest) := by
  rw [escape]
  split
  · next h => subst h; rfl
  split
  · next h => subst h; rfl
  split
  · next h => subst h; rfl
  split
  · next h => subst h; rfl
  split
  · next h => rcases h with rfl | rfl <;> rfl
  split
  · exact readQuotedEscape?_escapeByNumber c rest
  · next hmark _ => exact readEscape?_self (fun h => hmark (.inl h)) rest

/-- **Quoted texts are legible.** -/
theorem legible_quoted : Legible fun (t : Text) r => quoted t ++ r := by
  intro t u r s h
  have hbody : t.flatMap (escape '"') ++ '"' :: r = u.flatMap (escape '"') ++ '"' :: s := by
    simpa [quoted] using h
  exact legible_escaped readQuotedEscape?_escape (by decide) rfl hbody

/-- An escape has no line feed. -/
theorem lineFeed_notMem_escape (c : Char) : '\n' ∉ escape '"' c := by
  rw [escape]
  split
  · decide
  split
  · decide
  split
  · decide
  split
  · decide
  split
  · next h => rcases h with rfl | rfl <;> decide
  split
  · simp [escapeByNumber, notMem_toDigits.2]
  · next hfeed _ _ => simpa using Ne.symm hfeed

/-- **A quoted text has no line feed**, whatever the text holds. -/
theorem lineFeed_notMem_quoted (t : Text) : '\n' ∉ quoted t := by
  simp [quoted, lineFeed_notMem_escape]

end Text

/-! ### Terms -/

namespace Term

variable {t u : Term} {r s : Text}

/-- A label of a part of a display: it has no equals sign. -/
abbrev Label : Type := { label : Text // '=' ∉ label }

/-- A labelled part in front of a text. -/
def writePart (m : Label × Text) (rest : Text) : Text :=
  displayPart m.1 (some m.2) ++ rest

/-- The parts of a term behind its value. -/
def labelledParts (t : Term) : List (Label × Option Text) :=
  [(⟨"field".toList, by decide⟩, t.field), (⟨"operator".toList, by decide⟩, t.operator),
    (⟨"modifier".toList, by decide⟩, t.modifier)]

/-- Labelled parts are legible. -/
theorem legible_writePart : Legible writePart := by
  rintro ⟨⟨label, hlabel⟩, a⟩ ⟨⟨label', hlabel'⟩, b⟩ r s h
  have hpart : label ++ '=' :: (Text.quoted a ++ r) = label' ++ '=' :: (Text.quoted b ++ s) := by
    simpa [writePart, displayPart] using h
  obtain ⟨rfl, hvalue⟩ := eq_of_append_cons hlabel hlabel' hpart
  obtain ⟨rfl, rfl⟩ := Text.legible_quoted hvalue
  exact ⟨rfl, rfl⟩

/-- Every part is in its place, also one that is missing. -/
theorem writeParts_cons (label : Label) (part : Option Text) (more : List (Label × Option Text))
    (last : Text → Text) (rest : Text) : writeParts writePart last ((label, part) :: more) rest =
      displayPart label part ++ writeParts writePart last more rest := by
  cases part <;> rfl

/-- A term is its value and, behind it, the parts that it has. -/
theorem display_append (t : Term) (rest : Text) : t.display ++ rest =
    "Term(".toList ++ (Text.quoted t.value ++
      writeParts writePart (')' :: ·) t.labelledParts rest) := by
  unfold display labelledParts
  simp only [List.append_assoc, writeParts_cons, writeParts]
  simp

/-- **Terms on one line are legible.** -/
theorem legible_display : Legible fun (t : Term) r => t.display ++ r := by
  intro t u r s h
  simp only [display_append] at h
  obtain ⟨hvalue, hparts⟩ := Text.legible_quoted (List.append_cancel_left h)
  have hlast : ∀ m r s, writePart m r ≠ ')' :: s := by simp [writePart, displayPart]
  have hlabels : t.labelledParts.map Prod.fst = u.labelledParts.map Prod.fst := by
    simp [labelledParts]
  have hnodup : (t.labelledParts.map Prod.fst).Nodup := by simp [labelledParts]
  obtain ⟨hmetadata, rfl⟩ := writeParts_inj legible_writePart hlast List.cons_injective hlabels
    hnodup hparts
  obtain ⟨value, field, operator, modifier⟩ := t
  obtain ⟨value', field', operator', modifier'⟩ := u
  simp_all [labelledParts]

/-- A part of a term is shown on one line. -/
theorem lineFeed_notMem_displayPart (label : Text) (hlabel : '\n' ∉ label) (part : Option Text) :
    '\n' ∉ displayPart label part := by
  cases part with
  | none => simp [displayPart]
  | some a => simp [displayPart, hlabel, Text.lineFeed_notMem_quoted]

/-- **A term is shown on one line.** -/
theorem lineFeed_notMem_display (t : Term) : '\n' ∉ t.display := by
  have hfield := lineFeed_notMem_displayPart "field".toList (by decide) t.field
  have hoperator := lineFeed_notMem_displayPart "operator".toList (by decide) t.operator
  have hmodifier := lineFeed_notMem_displayPart "modifier".toList (by decide) t.modifier
  have hvalue := Text.lineFeed_notMem_quoted t.value
  have hopening : '\n' ∉ "Term(".toList := by decide
  have hclosing : '\n' ∉ ")".toList := by decide
  unfold display
  exact List.not_mem_append (List.not_mem_append (List.not_mem_append (List.not_mem_append
    (List.not_mem_append hopening hvalue) hfield) hoperator) hmodifier) hclosing

end Term

/-! ### Rows -/

/-- A row without the line feed at its end. -/
def OutlineRow.text (row : OutlineRow) : Text :=
  List.replicate (2 * row.level) ' ' ++ row.label

/-- The number of spaces in front of a line. -/
def Text.indentation (line : Text) : Nat :=
  (line.takeWhile (· == ' ')).length

namespace Node

variable {n m : Node} {level : Nat} {r s : Text}

/-- A node on one line: a term, or the name of an operator. -/
def label : Node → Text
  | .term t => t.display
  | .not _ => "Not".toList
  | .and _ _ => "And".toList
  | .or _ _ => "Or".toList

/-- The nodes below the root, left to right. -/
def children : Node → List Node
  | .term _ => []
  | .not child => [child]
  | .and left right => [left, right]
  | .or left right => [left, right]

/-- The nodes of a tree, each before the nodes below it and with the number of nodes above it. -/
def preorder : Node → List (Nat × Node)
  | .term t => [(0, .term t)]
  | .not child => (0, .not child) :: child.preorder.map (Prod.map (· + 1) id)
  | .and left right =>
    (0, .and left right) :: (left.preorder ++ right.preorder).map (Prod.map (· + 1) id)
  | .or left right =>
    (0, .or left right) :: (left.preorder ++ right.preorder).map (Prod.map (· + 1) id)

/-- The row of a node with a number of nodes above it, in a tree whose root is at `level`. -/
def row (level : Nat) (v : Nat × Node) : OutlineRow :=
  ⟨level + v.1, v.2.label⟩

/-- Nodes that are the same but for the nodes below them. -/
inductive SameRoot : Node → Node → Prop
  | term (t : Term) : SameRoot (.term t) (.term t)
  | not (child child' : Node) : SameRoot (.not child) (.not child')
  | and (left right left' right' : Node) : SameRoot (.and left right) (.and left' right')
  | or (left right left' right' : Node) : SameRoot (.or left right) (.or left' right')

/-- The first letter of a label. -/
def initial : Node → Char
  | .term _ => 'T'
  | .not _ => 'N'
  | .and _ _ => 'A'
  | .or _ _ => 'O'

/-- A label begins with its first letter. -/
theorem exists_label_eq_cons (n : Node) : ∃ more, n.label = n.initial :: more := by
  cases n with
  | term t => exact ⟨_, rfl⟩
  | not child => exact ⟨_, rfl⟩
  | and left right => exact ⟨_, rfl⟩
  | or left right => exact ⟨_, rfl⟩

/-- **The label of a node says what the node is.** -/
theorem sameRoot_of_label_eq (h : n.label = m.label) : SameRoot n m := by
  obtain ⟨more, hmore⟩ := n.exists_label_eq_cons
  obtain ⟨more', hmore'⟩ := m.exists_label_eq_cons
  have hinitial : n.initial = m.initial := by
    rw [hmore, hmore'] at h
    exact (List.cons.inj h).1
  cases n with
  | term t =>
      cases m with
      | term u =>
          obtain ⟨rfl, -⟩ := Term.legible_display (congrArg (· ++ []) h)
          exact .term t
      | _ => simp [initial] at hinitial
  | not child =>
      cases m with
      | not child' => exact .not child child'
      | _ => simp [initial] at hinitial
  | and left right =>
      cases m with
      | and left' right' => exact .and left right left' right'
      | _ => simp [initial] at hinitial
  | or left right =>
      cases m with
      | or left' right' => exact .or left right left' right'
      | _ => simp [initial] at hinitial

/-- A label is on one line. -/
theorem lineFeed_notMem_label (n : Node) : '\n' ∉ n.label := by
  have hnot : '\n' ∉ "Not".toList := by decide
  have hand : '\n' ∉ "And".toList := by decide
  have hor : '\n' ∉ "Or".toList := by decide
  cases n with
  | term t => exact t.lineFeed_notMem_display
  | not child => exact hnot
  | and left right => exact hand
  | or left right => exact hor

/-- The first row is the root; the rows of the children follow, one level below. -/
theorem rows_eq (level : Nat) (n : Node) :
    n.rows level = ⟨level, n.label⟩ :: n.children.flatMap (rows (level + 1)) := by
  cases n <;> simp [rows, label, children]

/-- Nodes below the root have their rows one level below. -/
theorem map_row_below (level : Nat) (vs : List (Nat × Node)) :
    (vs.map (Prod.map (· + 1) id)).map (row level) = vs.map (row (level + 1)) := by
  rw [List.map_map]
  refine List.map_congr_left fun v _ => ?_
  simp [row, Nat.add_assoc, Nat.add_comm 1]

/-- **The rows are the nodes in order**, each at its level. -/
theorem rows_eq_map_preorder (level : Nat) (n : Node) :
    n.rows level = n.preorder.map (row level) := by
  induction n generalizing level with
  | term t => rfl
  | not child ih =>
      rw [preorder, List.map_cons, map_row_below, ← ih]
      rfl
  | and left right ihl ihr =>
      rw [preorder, List.map_cons, map_row_below, List.map_append, ← ihl, ← ihr]
      rfl
  | or left right ihl ihr =>
      rw [preorder, List.map_cons, map_row_below, List.map_append, ← ihl, ← ihr]
      rfl

/-! ### Trees -/

/-- The rows of a tree whose root is at `level`, in front of a text. -/
def writeRows (level : Nat) (n : Node) (rest : Text) : Text :=
  (n.rows level).flatMap OutlineRow.write ++ rest

/-- The line of the root is in front; the children follow, one level below. -/
theorem writeRows_eq (level : Nat) (n : Node) (rest : Text) : n.writeRows level rest =
    List.replicate (2 * level) ' ' ++
      (n.label ++ '\n' :: n.children.foldr (writeRows (level + 1)) rest) := by
  have hbelow : ∀ ns : List Node, (ns.flatMap (rows (level + 1))).flatMap OutlineRow.write ++ rest =
      ns.foldr (writeRows (level + 1)) rest := by
    intro ns
    induction ns with
    | nil => rfl
    | cons n ns ih => simp [writeRows, ← ih]
  rw [writeRows, rows_eq, ← hbelow]
  simp [OutlineRow.write]

/-- The roots are the same and so is what follows them, when outlines are. -/
theorem sameRoot_of_writeRows (h : n.writeRows level r = m.writeRows level s) : SameRoot n m ∧
    n.children.foldr (writeRows (level + 1)) r = m.children.foldr (writeRows (level + 1)) s := by
  rw [writeRows_eq, writeRows_eq] at h
  obtain ⟨hlabel, hbelow⟩ := eq_of_append_cons n.lineFeed_notMem_label m.lineFeed_notMem_label
    (List.append_cancel_left h)
  exact ⟨sameRoot_of_label_eq hlabel, hbelow⟩

/-- **Trees are legible** by their rows: the root says how many children follow it. -/
theorem legible_rows (level : Nat) : Legible (writeRows level) := by
  intro n
  induction n generalizing level with
  | term t =>
      intro m r s h
      obtain ⟨hroot, hbelow⟩ := sameRoot_of_writeRows h
      cases hroot with
      | term => exact ⟨rfl, hbelow⟩
  | not child ih =>
      intro m r s h
      obtain ⟨hroot, hbelow⟩ := sameRoot_of_writeRows h
      cases hroot with
      | not _ child' =>
          obtain ⟨rfl, rfl⟩ := ih (level + 1) hbelow
          exact ⟨rfl, rfl⟩
  | and left right ihl ihr =>
      intro m r s h
      obtain ⟨hroot, hbelow⟩ := sameRoot_of_writeRows h
      cases hroot with
      | and _ _ left' right' =>
          obtain ⟨rfl, hright⟩ := ihl (level + 1) hbelow
          obtain ⟨rfl, rfl⟩ := ihr (level + 1) hright
          exact ⟨rfl, rfl⟩
  | or left right ihl ihr =>
      intro m r s h
      obtain ⟨hroot, hbelow⟩ := sameRoot_of_writeRows h
      cases hroot with
      | or _ _ left' right' =>
          obtain ⟨rfl, hright⟩ := ihl (level + 1) hbelow
          obtain ⟨rfl, rfl⟩ := ihr (level + 1) hright
          exact ⟨rfl, rfl⟩

/-! ### Lines -/

/-- A row is a line and a line feed. -/
theorem write_row (level : Nat) (v : Nat × Node) :
    (row level v).write = (row level v).text ++ ['\n'] := rfl

/-- A row is a line. -/
theorem lineFeed_notMem_text (level : Nat) (v : Nat × Node) : '\n' ∉ (row level v).text := by
  refine List.not_mem_append (fun h => ?_) v.2.lineFeed_notMem_label
  exact absurd (List.eq_of_mem_replicate h) (by decide)

/-- **The lines of an outline** are the rows of the nodes, in order; an empty one ends it. -/
theorem splitOn_outline (n : Node) :
    n.outline.splitOn '\n' = n.preorder.map (fun v => (row 0 v).text) ++ [[]] := by
  rw [outline, rows_eq_map_preorder]
  generalize n.preorder = vs
  induction vs with
  | nil => rfl
  | cons v vs ih =>
      rw [List.map_cons, List.flatMap_cons, write_row, List.append_assoc, List.singleton_append,
        List.splitOn_append_cons_self_of_not_mem (lineFeed_notMem_text 0 v), ih]
      rfl

/-- The spaces in front of a line are those of its level. -/
theorem indentation_text (v : Nat × Node) : Text.indentation (row 0 v).text = 2 * v.1 := by
  obtain ⟨more, hmore⟩ := v.2.exists_label_eq_cons
  have hinitial : (v.2.initial == ' ') = false := by cases v.2 <;> rfl
  have hspaces : ∀ c ∈ List.replicate (2 * (0 + v.1)) ' ', (c == ' ') = true := fun c hc =>
    beq_iff_eq.mpr (List.eq_of_mem_replicate hc)
  simp only [Text.indentation, OutlineRow.text, row, hmore]
  rw [List.takeWhile_append_of_pos hspaces, List.takeWhile_cons_of_neg (by simp [hinitial])]
  simp

/-- Behind the spaces of a line stands its node. -/
theorem drop_text (v : Nat × Node) : (row 0 v).text.drop (2 * v.1) = v.2.label := by
  simp [OutlineRow.text, row]

end Node

/-! ### Queries -/

/-- The outline of a tree is not the one of the empty query. -/
theorem Node.outline_ne_empty (n : Node) : n.outline ≠ Query.empty.outline := by
  intro h
  obtain ⟨more, hmore⟩ := n.exists_label_eq_cons
  have hinitial : n.initial = '(' := by
    rw [outline, rows_eq, List.flatMap_cons, OutlineRow.write, hmore] at h
    exact (List.cons.inj h).1
  cases n <;> simp [initial] at hinitial

/-- Queries with the same outline are the same. -/
theorem Query.eq_of_outline_eq {q q' : Query} (h : q.outline = q'.outline) : q = q' := by
  obtain ⟨root⟩ := q
  obtain ⟨root'⟩ := q'
  cases root with
  | none =>
      cases root' with
      | none => rfl
      | some m => exact absurd h.symm m.outline_ne_empty
  | some n =>
      cases root' with
      | none => exact absurd h n.outline_ne_empty
      | some m =>
          obtain ⟨rfl, -⟩ := Node.legible_rows 0 (congrArg (· ++ []) h)
          rfl

/-- **Outlines are unambiguous.** Different queries have different outlines, and the outline of a
tree has one line for each node, in order from the root, the node behind two spaces for each node
above it. -/
theorem outline_unambiguous :
    (∀ q q' : Query, q.outline = q'.outline ↔ q = q') ∧
    ∀ n : Node, ∃ lines : List Text, n.outline.splitOn '\n' = lines ++ [[]] ∧
      List.Forall₂ (fun line v => Text.indentation line = 2 * v.1 ∧
        line.drop (2 * v.1) = v.2.label) lines n.preorder := by
  refine ⟨fun q q' => ⟨fun h => ?_, congrArg Query.outline⟩, fun n => ?_⟩
  · exact Query.eq_of_outline_eq h
  · refine ⟨_, n.splitOn_outline, ?_⟩
    rw [List.forall₂_map_left_iff, List.forall₂_same]
    exact fun v _ => ⟨Node.indentation_text v, Node.drop_text v⟩

end BoolQuery
