import BoolQuery.Proofs.Toml.Strings
import BoolQuery.Toml.Reader
import BoolQuery.Toml.Section

/-!
# Writing Sections and Reading Their Statements

A document made of sections is read as the statements that the sections stand for: for each one a
header, and behind it an entry for each of its lines. The names in it may be any that need no
quotation marks, and the values any texts at all.

Every part is read in front of an arbitrary rest of the document, so what is read for a row of
parts is what is read for each of them. Only what ends a name or a string matters in the rest.

## Main definitions

* `Toml.isBareName`, `Toml.Section.isBare`: names that need no quotation marks, and sections with
  no others.
* `Toml.Key.ofPath`: the key with given names.
* `Toml.Section.statements`: the statements that a section stands for.

## Main results

* `Toml.readKey?_intercalate`: reading a key.
* `Toml.readStatement?_header`, `Toml.readStatement?_writeEntry`: reading the lines of a section.
* `Toml.readStatements?_write`: reading a section.
* `Toml.read?_writeSections`: reading a document made of sections.
-/

namespace BoolQuery.Toml

/-- True for names that need no quotation marks. -/
def isBareName (name : Text) : Bool :=
  !name.isEmpty && name.all isBare

/-- True for sections in which no name needs quotation marks. -/
def Section.isBare (s : Section) : Bool :=
  !s.path.isEmpty && s.path.all isBareName && s.entries.all (isBareName ·.1)

/-- The key with the given names, of which there is at least one. -/
def Key.ofPath (path : List Text) : Key where
  parents := path.dropLast
  last := path.getLast?.getD []

/-- An entry as a statement. -/
def entryStatement (entry : Text × Text) : Statement :=
  .entry (.ofPath [entry.1]) (.string entry.2)

/-- The statements that a section stands for. -/
def Section.statements (s : Section) : List Statement :=
  .table (.ofPath s.path) :: s.entries.map entryStatement

variable {c d : Char} {name : Text} {path others : List Text} {t u rest : Text}

/-! ### Names -/

/-- Some other character is none of a name without quotation marks. -/
theorem ne_of_isBare (hc : isBare c = true) (hd : isBare d = false) : c ≠ d := by
  rintro rfl
  exact absurd hc (by simp [hd])

/-- A name that needs no quotation marks begins with a character of such names. -/
theorem exists_cons_of_isBareName (h : isBareName name = true) :
    ∃ c u, name = c :: u ∧ isBare c = true := by
  cases name with
  | nil => cases h
  | cons c u =>
      simp only [isBareName, Bool.and_eq_true, List.all_cons] at h
      exact ⟨c, u, rfl, h.2.1⟩

/-- Blanks are none of them. -/
theorem isSpace_of_isBare (hc : isBare c = true) : isSpace c = false := by
  simp [isSpace, ne_of_isBare hc (d := ' ') rfl, ne_of_isBare hc (d := '\t') rfl]

/-- No blanks stand in front of a name. -/
theorem dropWhile_isSpace_append (h : isBareName name = true) (t : Text) :
    (name ++ t).dropWhile isSpace = name ++ t := by
  obtain ⟨c, u, rfl, hc⟩ := exists_cons_of_isBareName h
  exact List.dropWhile_cons_of_neg (by simp [isSpace_of_isBare hc])

/-- In front of what cannot go on with it, a name is read to its end. -/
theorem readName?_append (hname : isBareName name = true)
    (hrest : ∀ c ∈ rest.head?, isBare c = false) :
    readName? (name ++ rest) = some (name, rest) := by
  obtain ⟨c, u, hcons, -⟩ := exists_cons_of_isBareName hname
  have hall : ∀ c ∈ name, isBare c = true := by
    simp only [isBareName, Bool.and_eq_true, List.all_eq_true] at hname
    exact hname.2
  have hstop : rest.takeWhile isBare = [] ∧ rest.dropWhile isBare = rest := by
    cases rest with
    | nil => exact ⟨rfl, rfl⟩
    | cons c rest =>
        have hc : ¬isBare c = true := by simpa using hrest c rfl
        exact ⟨List.takeWhile_cons_of_neg hc, List.dropWhile_cons_of_neg hc⟩
  rw [readName?, List.takeWhile_append_of_pos hall, List.dropWhile_append_of_pos hall, hstop.1,
    hstop.2, List.append_nil, hcons]

/-! ### Keys -/

/-- A name in front of others is one more parent. -/
theorem Key.ofPath_cons_cons (first next : Text) (others : List Text) :
    Key.ofPath (first :: next :: others) =
      { Key.ofPath (next :: others) with
        parents := first :: (Key.ofPath (next :: others)).parents } := by
  simp [Key.ofPath]

/-- The last name of a key. -/
theorem readKeyFrom?_last (h : (t.dropWhile isSpace).head? ≠ some '.') (name : Text) :
    readKeyFrom? name t = some (.ofPath [name], t.dropWhile isSpace) := by
  rw [readKeyFrom?.eq_def]
  split
  · next heq =>
    rw [heq] at h
    exact absurd rfl h
  · rfl

/-- A name of a key in front of a dot and another name. -/
theorem readKeyFrom?_dot {next : Text} (hnext : isBareName next = true)
    (hrest : ∀ c ∈ rest.head?, isBare c = false) (name : Text) :
    readKeyFrom? name ('.' :: (next ++ rest)) =
      (readKeyFrom? next rest).map fun r => ({ r.1 with parents := name :: r.1.parents }, r.2) := by
  have hshorter : rest.length < ('.' :: (next ++ rest)).length := by
    simp only [List.length_cons, List.length_append]
    omega
  rw [readKeyFrom?.eq_def, List.dropWhile_cons_of_neg (by decide)]
  simp only [dropWhile_isSpace_append hnext, readName?_append hnext hrest, if_pos hshorter]

/-- What ends a name also ends it behind more names, the dot of which does. -/
theorem not_isBare_of_names (hbare : ∀ c ∈ rest.head?, isBare c = false) (others : List Text) :
    ∀ c ∈ (others.flatMap ('.' :: ·) ++ rest).head?, isBare c = false := by
  cases others with
  | nil => exact hbare
  | cons =>
      rintro c ⟨⟩
      rfl

/-- The names behind the first one of a key, each with its dot, are read up to what cannot go on
with the key. -/
theorem readKeyFrom?_append (hothers : ∀ name ∈ others, isBareName name = true)
    (hbare : ∀ c ∈ rest.head?, isBare c = false) (hdot : (rest.dropWhile isSpace).head? ≠ some '.')
    (name : Text) :
    readKeyFrom? name (others.flatMap ('.' :: ·) ++ rest) =
      some (.ofPath (name :: others), rest.dropWhile isSpace) := by
  induction others generalizing name with
  | nil => exact readKeyFrom?_last hdot name
  | cons next others ih =>
      obtain ⟨hnext, hothers⟩ := List.forall_mem_cons.mp hothers
      rw [List.flatMap_cons, List.cons_append, List.cons_append, List.append_assoc,
        readKeyFrom?_dot hnext (not_isBare_of_names hbare others), ih hothers,
        Key.ofPath_cons_cons]
      rfl

/-- The elements of a list, with a separator in front of each but the first. -/
theorem intercalate_cons {α : Type} (separator : α) (first : List α) (others : List (List α)) :
    List.intercalate [separator] (first :: others) =
      first ++ others.flatMap (separator :: ·) := by
  induction others generalizing first with
  | nil => simp
  | cons next others ih => simp [List.intercalate_cons_cons, ih]

/-- **Reading a key.** -/
theorem readKey?_intercalate (hne : path ≠ []) (hpath : ∀ name ∈ path, isBareName name = true)
    (hbare : ∀ c ∈ rest.head?, isBare c = false)
    (hdot : (rest.dropWhile isSpace).head? ≠ some '.') :
    readKey? (List.intercalate ['.'] path ++ rest) =
      some (.ofPath path, rest.dropWhile isSpace) := by
  cases path with
  | nil => exact absurd rfl hne
  | cons name others =>
      obtain ⟨hname, hothers⟩ := List.forall_mem_cons.mp hpath
      rw [intercalate_cons, List.append_assoc, readKey?,
        readName?_append hname (not_isBare_of_names hbare others)]
      exact readKeyFrom?_append hothers hbare hdot name

/-! ### Lines -/

/-- Behind the line end. -/
theorem endLine?_feed (t : Text) : endLine? ('\n' :: t) = some t :=
  rfl

/-- **Reading a header.** -/
theorem readStatement?_header (hne : path ≠ []) (hpath : ∀ name ∈ path, isBareName name = true)
    (rest : Text) :
    readStatement? ('[' :: (List.intercalate ['.'] path ++ ']' :: '\n' :: rest)) =
      some (.table (.ofPath path), rest) := by
  have hkey : readKey? (List.intercalate ['.'] path ++ ']' :: '\n' :: rest) =
      some (.ofPath path, ']' :: '\n' :: rest) :=
    readKey?_intercalate hne hpath (by rintro c ⟨⟩; rfl) (fun h => by cases h)
  cases path with
  | nil => exact absurd rfl hne
  | cons name others =>
      have hname := hpath name List.mem_cons_self
      obtain ⟨c, u, hcons, hc⟩ := exists_cons_of_isBareName hname
      rw [intercalate_cons, List.append_assoc] at hkey ⊢
      rw [readStatement?.eq_2]
      · simp only [dropWhile_isSpace_append hname, hkey, endLine?_feed, Option.map_some]
      · intro v heq
        rw [hcons] at heq
        exact ne_of_isBare hc (d := '[') rfl (List.cons.inj heq).1

/-- A written string begins with one of the marks. -/
theorem writeString_append_front (t rest : Text) :
    ∃ u, writeString t ++ rest = '"' :: u ∨ writeString t ++ rest = '\'' :: u := by
  rw [writeString]
  cases StringForm.of t with
  | basic => exact ⟨_, .inl rfl⟩
  | literal => exact ⟨_, .inr rfl⟩
  | multilineBasic => exact ⟨_, .inl rfl⟩
  | multilineLiteral => exact ⟨_, .inr rfl⟩

/-- A written string is a value at any depth. -/
theorem readValue?_writeString (depth : Nat) (t : Text) (hbasic : rest.head? ≠ some '"')
    (hliteral : rest.head? ≠ some '\'') :
    readValue? depth (writeString t ++ rest) = some (.string t, rest) := by
  have hread := readString?_writeString t hbasic hliteral
  obtain ⟨u, hu | hu⟩ := writeString_append_front t rest
  all_goals
    rw [hu] at hread ⊢
    cases depth <;> simp [readValue?, hread]

/-- The key of an entry and the equals sign behind it. -/
theorem readKeyEquals?_entry (hname : isBareName name = true)
    (hvalue : ∀ c ∈ t.head?, isSpace c = false) :
    readKeyEquals? (List.dropWhile isSpace) (name ++ ' ' :: '=' :: ' ' :: t) =
      some (.ofPath [name], t) := by
  have hkey : readKey? (name ++ ' ' :: '=' :: ' ' :: t) =
      some (.ofPath [name], '=' :: ' ' :: t) := by
    rw [readKey?, readName?_append hname (by rintro c ⟨⟩; rfl)]
    exact readKeyFrom?_last (fun h => by cases h) name
  have hskip : t.dropWhile isSpace = t := by
    cases t with
    | nil => rfl
    | cons c t => exact List.dropWhile_cons_of_neg (by simpa using hvalue c rfl)
  have hsign : ('=' :: ' ' :: t).dropWhile isSpace = '=' :: ' ' :: t := rfl
  have hblank : (' ' :: t).dropWhile isSpace = t.dropWhile isSpace := rfl
  simp only [readKeyEquals?, hkey, hsign, hblank, hskip]

/-- **Reading an entry.** -/
theorem readStatement?_writeEntry {entry : Text × Text} (hname : isBareName entry.1 = true)
    (rest : Text) :
    readStatement? (writeEntry entry ++ rest) = some (entryStatement entry, rest) := by
  obtain ⟨c, u, hcons, hc⟩ := exists_cons_of_isBareName hname
  have hentry : writeEntry entry ++ rest =
      entry.1 ++ ' ' :: '=' :: ' ' :: (writeString entry.2 ++ '\n' :: rest) := by
    simp [writeEntry]
  have hfront : ∀ c ∈ (writeString entry.2 ++ '\n' :: rest).head?, isSpace c = false := by
    obtain ⟨u, hu | hu⟩ := writeString_append_front entry.2 ('\n' :: rest)
    all_goals
      rw [hu]
      rintro c ⟨⟩
      rfl
  have hvalue : readValue? maxNesting (writeString entry.2 ++ '\n' :: rest) =
      some (.string entry.2, '\n' :: rest) :=
    readValue?_writeString _ _ (by simp) (by simp)
  have hheader : ∀ v, entry.1 ++ ' ' :: '=' :: ' ' :: (writeString entry.2 ++ '\n' :: rest) ≠
      '[' :: v := by
    intro v heq
    rw [hcons] at heq
    exact ne_of_isBare hc (d := '[') rfl (List.cons.inj heq).1
  rw [hentry, readStatement?.eq_3 _ (fun _ => hheader _) hheader]
  simp only [readKeyEquals?_entry hname hfront, hvalue, endLine?_feed, Option.map_some,
    entryStatement]

/-! ### Documents -/

/-- Blank lines are passed over. -/
theorem skipFiller_feeds (count : Nat) (t : Text) :
    skipFiller false (List.replicate count '\n' ++ t) = skipFiller false t := by
  induction count with
  | zero => rfl
  | succ count ih => exact ih

/-- Behind blank lines, what is read as a statement is the next one. -/
theorem readStatements?_cons {statement : Statement} (count : Nat) (hskip : skipFiller false t = t)
    (hread : readStatement? t = some (statement, rest)) (hshorter : rest.length < t.length) :
    readStatements? (List.replicate count '\n' ++ t) =
      (readStatements? rest).map (statement :: ·) := by
  cases t with
  | nil => cases hshorter
  | cons c t =>
      have hlength : rest.length < (List.replicate count '\n' ++ c :: t).length := by
        rw [List.length_append]
        omega
      rw [readStatements?.eq_def, skipFiller_feeds, hskip]
      simp only [hread, if_pos hlength]

/-- Nothing is passed over in front of what begins neither a blank, a line end nor a comment. -/
theorem skipFiller_cons (hspace : isSpace c = false) (hreturn : c ≠ '\r') (hfeed : c ≠ '\n')
    (hcomment : c ≠ '#') (t : Text) : skipFiller false (c :: t) = c :: t := by
  rw [skipFiller.eq_3 _ _ _ (fun _ h _ => hreturn h), if_neg hfeed]
  simp [hspace, hcomment]

/-- The entries of a section are read one by one. -/
theorem readStatements?_entries {entries : List (Text × Text)}
    (h : ∀ entry ∈ entries, isBareName entry.1 = true) (rest : Text) :
    readStatements? (entries.flatMap writeEntry ++ rest) =
      (readStatements? rest).map (entries.map entryStatement ++ ·) := by
  induction entries with
  | nil => simp
  | cons entry entries ih =>
      obtain ⟨hentry, h⟩ := List.forall_mem_cons.mp h
      obtain ⟨c, u, hcons, hc⟩ := exists_cons_of_isBareName hentry
      have hskip (t : Text) : skipFiller false (writeEntry entry ++ t) = writeEntry entry ++ t := by
        rw [writeEntry, hcons]
        exact skipFiller_cons (isSpace_of_isBare hc) (ne_of_isBare hc rfl) (ne_of_isBare hc rfl)
          (ne_of_isBare hc rfl) _
      have hshorter (t : Text) : t.length < (writeEntry entry ++ t).length := by
        simp only [writeEntry, List.length_append, List.length_singleton]
        omega
      rw [List.flatMap_cons, List.append_assoc, ← List.nil_append (writeEntry entry ++ _),
        ← List.replicate_zero, readStatements?_cons 0 (hskip _)
          (readStatement?_writeEntry hentry _) (hshorter _), ih h, Option.map_map]
      rfl

/-- **Reading a section**, behind blank lines. -/
theorem readStatements?_write {s : Section} (h : s.isBare = true) (count : Nat) (rest : Text) :
    readStatements? (List.replicate count '\n' ++ (s.write ++ rest)) =
      (readStatements? rest).map (s.statements ++ ·) := by
  simp only [Section.isBare, Bool.and_eq_true, Bool.not_eq_true', List.isEmpty_eq_false_iff,
    List.all_eq_true] at h
  obtain ⟨⟨hne, hpath⟩, hentries⟩ := h
  have hwrite : s.write ++ rest = '[' :: (List.intercalate ['.'] s.path ++
      ']' :: '\n' :: (s.entries.flatMap writeEntry ++ rest)) := by
    simp [Section.write]
  have hskip (t : Text) : skipFiller false ('[' :: t) = '[' :: t :=
    skipFiller_cons rfl (by decide) (by decide) (by decide) t
  have hshorter : (s.entries.flatMap writeEntry ++ rest).length <
      ('[' :: (List.intercalate ['.'] s.path ++
        ']' :: '\n' :: (s.entries.flatMap writeEntry ++ rest))).length := by
    simp only [List.length_cons, List.length_append]
    omega
  rw [hwrite, readStatements?_cons count (hskip _) (readStatement?_header hne hpath _) hshorter,
    readStatements?_entries hentries, Option.map_map]
  rfl

/-- The sections behind the first one, each with its blank line. -/
theorem readStatements?_others {sections : List Section}
    (h : ∀ s ∈ sections, s.isBare = true) :
    readStatements? ((sections.map Section.write).flatMap ('\n' :: ·)) =
      some (sections.flatMap Section.statements) := by
  induction sections with
  | nil =>
      rw [readStatements?.eq_def]
      rfl
  | cons s sections ih =>
      obtain ⟨hs, h⟩ := List.forall_mem_cons.mp h
      have hread := readStatements?_write hs 1 ((sections.map Section.write).flatMap ('\n' :: ·))
      rw [ih h] at hread
      exact hread

/-- The statements of a document made of sections. -/
theorem readStatements?_writeSections {sections : List Section}
    (h : ∀ s ∈ sections, s.isBare = true) :
    readStatements? (writeSections sections) = some (sections.flatMap Section.statements) := by
  cases sections with
  | nil => exact readStatements?_others h
  | cons s sections =>
      obtain ⟨hs, h⟩ := List.forall_mem_cons.mp h
      have hread := readStatements?_write hs 0 ((sections.map Section.write).flatMap ('\n' :: ·))
      rw [readStatements?_others h] at hread
      rw [writeSections, List.map_cons, intercalate_cons]
      exact hread

/-- **Reading a document made of sections**: it stands for the table that their statements
build. -/
theorem read?_writeSections {sections : List Section} (h : ∀ s ∈ sections, s.isBare = true) :
    read? (writeSections sections) =
      Members.ofStatements? (sections.flatMap Section.statements) := by
  have hmark : skipMark (writeSections sections) = writeSections sections := by
    cases sections with
    | nil => rfl
    | cons s sections =>
        rw [writeSections, List.map_cons, intercalate_cons]
        rfl
  rw [read?, hmark, readStatements?_writeSections h]
  rfl

end BoolQuery.Toml
