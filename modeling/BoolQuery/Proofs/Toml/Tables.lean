import BoolQuery.Proofs.Toml.Sections

/-!
# The Tables That Sections Build

A document whose first section is `[name]`, and whose other sections `[name.other]` are about
different tables in it, builds one table: the entries of the first section, and behind them a table
for each of the others.

Every statement changes one table somewhere in the table built so far. So for a path of names there
is what the whole becomes when the table at its end becomes something else, and a statement is
traced by what it does to that table alone.

## Main definitions

* `Toml.entryMember`, `Toml.tableMember`: entries and tables as members of a table.
* `Toml.Value.IsTableOf`: a table with given entries, however it is written.
* `Toml.Section.within`: the section about a table in another one.
* `Toml.Members.LeadsTo`: what a change of the table at the end of a path does to the whole.

## Main results

* `Toml.Draft.foldlM_add_entries`, `Toml.Draft.foldlM_add_section`: what the entries of a section
  and a whole section add.
* `Toml.Members.ofStatements?_sections`: what the document builds.
-/

namespace BoolQuery.Toml

/-- An entry as a member of a table. -/
def entryMember (entry : Text × Text) : Text × Value :=
  (entry.1, .string entry.2)

/-- A table with the given entries, under its name. -/
def tableMember (table : Text × List (Text × Text)) : Text × Value :=
  (table.1, .table .header (table.2.map entryMember))

/-- The value is a table with the given entries and nothing else, in any order. -/
def Value.IsTableOf (entries : List (Text × Text)) (v : Value) : Prop :=
  ∃ origin members, v = .table origin members ∧ ∀ m, m ∈ members ↔ m ∈ entries.map entryMember

/-- The section about a table in the table `parent`. -/
def Section.within (parent : Text) (table : Text × List (Text × Text)) : Section where
  path := [parent, table.1]
  entries := table.2

variable {name top : Text} {path : List Text} {v : Value} {members inner rest : Members}
  {entries : List (Text × Text)} {put : Members → Members}

/-- The members for entries are strings. -/
theorem mem_map_entryMember :
    (name, v) ∈ entries.map entryMember ↔ ∃ t, (name, t) ∈ entries ∧ v = .string t := by
  simp [entryMember, eq_comm]

/-! ### What names stand for -/

/-- What a name stands for is a member. -/
theorem mem_of_lookup (h : members.lookup name = some v) : (name, v) ∈ members := by
  obtain ⟨front, behind, rfl, -⟩ := List.lookup_eq_some_iff.mp h
  exact List.mem_append_right _ List.mem_cons_self

/-- A name that stands for nothing has no member. -/
theorem notMem_of_lookup (h : members.lookup name = none) (v : Value) : (name, v) ∉ members :=
  fun hmem => by simpa using List.lookup_eq_none_iff.mp h _ hmem

/-- A name with one member stands for that one. -/
theorem lookup_eq_some (hmem : (name, v) ∈ members) (honly : ∀ v', (name, v') ∈ members → v' = v) :
    members.lookup name = some v := by
  cases hlookup : members.lookup name with
  | none => exact absurd hmem (notMem_of_lookup hlookup v)
  | some v' => rw [honly v' (mem_of_lookup hlookup)]

/-! ### Paths -/

namespace Members

variable {f : Option Value → Option Value}

/-- A name that stands for nothing goes to the end. -/
theorem update_of_notMem (h : name ∉ members.map Prod.fst) :
    update f name members = (f none).map fun v => members ++ [(name, v)] := by
  induction members with
  | nil => rfl
  | cons m members ih =>
      obtain ⟨n, v⟩ := m
      simp only [List.map_cons, List.mem_cons, not_or] at h
      rw [update, if_neg (Ne.symm h.1), ih h.2, Option.map_map]
      rfl

/-- The first member with the name is changed. -/
theorem update_append_cons (h : name ∉ members.map Prod.fst) :
    update f name (members ++ (name, v) :: rest)
      = (f (some v)).map fun v' => members ++ (name, v') :: rest := by
  induction members with
  | nil => simp [update]
  | cons m members ih =>
      obtain ⟨n, v⟩ := m
      simp only [List.map_cons, List.mem_cons, not_or] at h
      rw [List.cons_append, update, if_neg (Ne.symm h.1), ih h.2, Option.map_map]
      rfl

/-- A path is followed name by name. -/
theorem within_append (isDotted : Bool) (f : Origin → Members → Option Members)
    (path path' : List Text) (origin : Origin) (members : Members) :
    within isDotted f (path ++ path') origin members
      = within isDotted (within isDotted f path') path origin members := by
  induction path generalizing origin members with
  | nil => rfl
  | cons name path ih =>
      have hwithin : within isDotted f (path ++ path')
          = within isDotted (within isDotted f path') path := by
        funext origin members
        exact ih origin members
      rw [List.cons_append, within, hwithin, within]

/-- The path leads to a table with a header of its own: when that table is `inner`, the whole is
`put inner`. -/
def LeadsTo (path : List Text) (put : Members → Members) : Prop :=
  ∀ f inner, within false f path .header (put inner) = (f .header inner).map put

/-- No names at all lead to the whole. -/
theorem leadsTo_nil : LeadsTo [] id := fun f inner => by
  rw [id_eq, within, Option.map_id, id_eq]

/-- One more name leads to the table that it stands for. -/
theorem LeadsTo.table (h : LeadsTo path put) (members : Members)
    (hname : name ∉ members.map Prod.fst) :
    LeadsTo (path ++ [name]) fun inner => put (members ++ [(name, .table .header inner)]) := by
  intro f inner
  have henter : within false f [name] .header (members ++ [(name, .table .header inner)])
      = (f .header inner).map fun inner' => members ++ [(name, .table .header inner')] := by
    rw [within, update_append_cons hname]
    simp [enter, within, Option.map_map, Function.comp_def]
  rw [within_append, h, henter, Option.map_map]
  rfl

end Members

/-! ### Statements -/

namespace Draft

/-- An entry with a new name. -/
theorem add_entry (hpath : Members.LeadsTo path put) {entry : Text × Text}
    (hname : entry.1 ∉ inner.map Prod.fst) :
    Draft.add { members := put inner, path } (entryStatement entry)
      = some { members := put (inner ++ [entryMember entry]), path } := by
  have hdefine : Members.define (.ofPath [entry.1]) (.string entry.2) .header inner
      = some (inner ++ [entryMember entry]) := by
    have hnew : Members.update (fun old => if old.isSome then none else some (.string entry.2))
        entry.1 inner = some (inner ++ [(entry.1, .string entry.2)]) :=
      Members.update_of_notMem hname
    simpa [Members.define, Key.ofPath, Members.within, Members.insertNew, entryMember] using hnew
  rw [entryStatement, Draft.add, hpath, hdefine]
  rfl

/-- **Entries** go to the end of the table that the header names. -/
theorem foldlM_add_entries (hpath : Members.LeadsTo path put) (inner : Members)
    (hnames : (inner.map Prod.fst ++ entries.map Prod.fst).Nodup) :
    (entries.map entryStatement).foldlM Draft.add { members := put inner, path }
      = some { members := put (inner ++ entries.map entryMember), path } := by
  induction entries generalizing inner with
  | nil => simp
  | cons entry entries ih =>
      have hname : entry.1 ∉ inner.map Prod.fst := fun hmem =>
        (List.nodup_append.mp hnames).2.2 _ hmem _ List.mem_cons_self rfl
      have hnames' :
          ((inner ++ [entryMember entry]).map Prod.fst ++ entries.map Prod.fst).Nodup := by
        simpa [entryMember] using hnames
      rw [List.map_cons, List.foldlM_cons, add_entry hpath hname, Option.bind_eq_bind,
        Option.bind_some, ih _ hnames']
      simp

/-- The header of a new table. -/
theorem add_header (hpath : Members.LeadsTo path put) (hname : name ∉ inner.map Prod.fst)
    (path' : List Text) :
    Draft.add { members := put inner, path := path' } (.table (.ofPath (path ++ [name])))
      = some { members := put (inner ++ [(name, .table .header [])]), path := path ++ [name] } := by
  have hparents : (Key.ofPath (path ++ [name])).parents = path := List.dropLast_concat
  have hlast : (Key.ofPath (path ++ [name])).last = name := by simp [Key.ofPath]
  rw [Draft.add, addHeader, Key.path, hparents, hlast, hpath, Members.update_of_notMem hname]
  rfl

/-- **A section** about a new table puts that table, with its entries, at the end. -/
theorem foldlM_add_section {s : Section} (hpath : Members.LeadsTo path put) (inner : Members)
    (hs : s.path = path ++ [name]) (hname : name ∉ inner.map Prod.fst)
    (hentries : (s.entries.map Prod.fst).Nodup) (path' : List Text) :
    s.statements.foldlM Draft.add { members := put inner, path := path' }
      = some { members := put (inner ++ [tableMember (name, s.entries)]), path := s.path } := by
  have hbelow := foldlM_add_entries (hpath.table inner hname) [] (by simpa using hentries)
  rw [Section.statements, List.foldlM_cons, hs, add_header hpath hname, Option.bind_eq_bind,
    Option.bind_some, hbelow]
  rfl

/-- Sections about new tables of the table `top`, which all differ. -/
theorem foldlM_add_sections {tables : List (Text × List (Text × Text))}
    (hpath : Members.LeadsTo [top] put) (inner : Members)
    (hnames : (inner.map Prod.fst ++ tables.map Prod.fst).Nodup)
    (hentries : ∀ table ∈ tables, (table.2.map Prod.fst).Nodup) (path' : List Text) :
    (((tables.map (Section.within top)).flatMap Section.statements).foldlM Draft.add
        { members := put inner, path := path' }).map Draft.members
      = some (put (inner ++ tables.map tableMember)) := by
  induction tables generalizing inner path' with
  | nil => simp
  | cons table tables ih =>
      obtain ⟨htable, hentries⟩ := List.forall_mem_cons.mp hentries
      have hname : table.1 ∉ inner.map Prod.fst := fun hmem =>
        (List.nodup_append.mp hnames).2.2 _ hmem _ List.mem_cons_self rfl
      have hnames' :
          ((inner ++ [tableMember table]).map Prod.fst ++ tables.map Prod.fst).Nodup := by
        simpa [tableMember] using hnames
      have hsection : (Section.within top table).statements.foldlM Draft.add
          { members := put inner, path := path' }
          = some { members := put (inner ++ [tableMember table]), path := [top, table.1] } :=
        foldlM_add_section hpath inner rfl hname htable path'
      rw [List.map_cons, List.flatMap_cons, List.foldlM_append, hsection, Option.bind_eq_bind,
        Option.bind_some]
      simpa using ih _ hnames' hentries _

end Draft

/-- **What a section and sections about tables in it build.** -/
theorem Members.ofStatements?_sections {tables : List (Text × List (Text × Text))}
    (hnames : (entries.map Prod.fst ++ tables.map Prod.fst).Nodup)
    (hentries : ∀ table ∈ tables, (table.2.map Prod.fst).Nodup) :
    ofStatements? (({ path := [top], entries } :: tables.map (Section.within top)).flatMap
        Section.statements)
      = some [(top, .table .header (entries.map entryMember ++ tables.map tableMember))] := by
  have hfirst : (Section.statements { path := [top], entries }).foldlM Draft.add {}
      = some { members := [tableMember (top, entries)], path := [top] } :=
    Draft.foldlM_add_section leadsTo_nil [] rfl List.not_mem_nil
      (List.nodup_append.mp hnames).1 []
  have htop : LeadsTo [top] fun inner => [(top, .table .header inner)] :=
    leadsTo_nil.table [] List.not_mem_nil
  have hothers := Draft.foldlM_add_sections htop (entries.map entryMember)
    (by simpa [entryMember, Function.comp_def] using hnames) hentries [top]
  rw [ofStatements?, List.flatMap_cons, List.foldlM_append, hfirst]
  exact hothers

end BoolQuery.Toml
