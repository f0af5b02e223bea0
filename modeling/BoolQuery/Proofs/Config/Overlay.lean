import BoolQuery.Proofs.Config.Document
import BoolQuery.Proofs.Toml.Tables
import Mathlib.Data.Finset.Insert

/-!
# Documents That State a Part of a Dialect

A document need not state all of a dialect. What it does not state is as in the standard dialect,
for each character, each pair of brackets and each keyword on its own. The check is made for the
dialect that comes out of this, so a character may also clash with one that the document does not
mention.

Which entries a document states is a matter of the table it stands for. How the tables in it came
to be and in which order their members stand does not matter, and a table with nothing to state may
be there or not. One document for each set of entries is written by `Dialect.partialDocument`.

## Main definitions

* `Dialect.Entry`: the entries of a dialect that can be stated separately.
* `Dialect.overlay`: some entries of a dialect laid over the standard dialect.
* `Dialect.StatedBy`: the document states these entries and no others.
* `Dialect.partialDocument`: a document that does.

## Main results

* `Dialect.StatedIn.ofValue?`: reading a table that states some entries.
* `Dialect.statedBy_partialDocument`, `Dialect.partialDocument_of_forall_mem`: the written document
  states the entries, and with all entries it is the document of the dialect.
* `Dialect.ofDocument_overlay`: what reading such documents gives.
-/

namespace BoolQuery

/-! ### Names -/

/-- The name of the keyword of an operator in the table `keywords`. -/
def Operator.fieldName : Operator → Text
  | .and => "and".toList
  | .or => "or".toList
  | .not => "not".toList

/-- The names of the keywords differ. -/
theorem Operator.nodup_fieldNames : (Operator.all.map Operator.fieldName).Nodup := by
  decide

theorem Operator.fieldName_injective : Function.Injective Operator.fieldName := fun op op' h =>
  List.inj_on_of_nodup_map nodup_fieldNames op.mem_all op'.mem_all h

/-- The name of a pair of brackets in the table `syntax`. -/
def BracketKind.fieldName : BracketKind → Text
  | .group => "group".toList
  | .fieldOperator => "field_operator".toList
  | .modifier => "modifier".toList

/-- The entries of the table that states a pair of brackets. -/
def BracketPair.entries (p : BracketPair) : List (Text × Text) :=
  [("open".toList, [p.opening]), ("close".toList, [p.closing])]

namespace Dialect

/-- An entry of a dialect that can be stated separately. -/
inductive Entry where
  /-- The field delimiter. -/
  | fieldDelimiter
  /-- The quote. -/
  | quote
  /-- A pair of brackets, both sides. -/
  | pair (kind : BracketKind)
  /-- The keyword of an operator. -/
  | keyword (op : Operator)
deriving DecidableEq, Repr

/-- A field of the table `syntax`. -/
inductive Field where
  /-- The field delimiter. -/
  | fieldDelimiter
  /-- The quote. -/
  | quote
  /-- A pair of brackets. -/
  | pair (kind : BracketKind)
  /-- The table of the keywords. -/
  | keywords
deriving DecidableEq, Repr

/-- The field in which an entry is stated. -/
def Entry.field : Entry → Field
  | .fieldDelimiter => .fieldDelimiter
  | .quote => .quote
  | .pair kind => .pair kind
  | .keyword _ => .keywords

namespace Field

/-- The name of a field. -/
def name : Field → Text
  | .fieldDelimiter => "field_delimiter".toList
  | .quote => "quote".toList
  | .pair kind => kind.fieldName
  | .keywords => "keywords".toList

/-- The fields, in the order in which they are read. -/
def all : List Field :=
  [.fieldDelimiter, .quote, .pair .group, .pair .fieldOperator, .pair .modifier, .keywords]

/-- There are no other fields. -/
theorem mem_all (field : Field) : field ∈ all := by
  rcases field with _ | _ | (_ | _ | _) | _ <;> decide

/-- The names of the fields are those that the reader knows. -/
theorem map_name_all : all.map name = fieldNames :=
  rfl

/-- The names of the fields differ. -/
theorem nodup_fieldNames : fieldNames.Nodup := by
  decide

theorem name_injective : Function.Injective name := fun field field' h =>
  List.inj_on_of_nodup_map (map_name_all ▸ nodup_fieldNames) field.mem_all field'.mem_all h

end Field

/-! ### Laying entries over the standard dialect -/

section Overlay

variable {K : Finset Entry} {d : Dialect} {e : Entry}

/-- The dialect that has the say about an entry. -/
def source (K : Finset Entry) (d : Dialect) (e : Entry) : Dialect :=
  if e ∈ K then d else standard

/-- The entries `K` of the dialect `d`, laid over the standard dialect. -/
def overlay (K : Finset Entry) (d : Dialect) : Dialect where
  fieldDelimiter := (source K d .fieldDelimiter).fieldDelimiter
  quote := (source K d .quote).quote
  group := (source K d (.pair .group)).group
  fieldOperator := (source K d (.pair .fieldOperator)).fieldOperator
  modifier := (source K d (.pair .modifier)).modifier
  keywords :=
    { and := (source K d (.keyword .and)).keywords.and
      or := (source K d (.keyword .or)).keywords.or
      not := (source K d (.keyword .not)).keywords.not }

/-- The entry is taken from the dialect. -/
theorem source_of_mem (h : e ∈ K) : source K d e = d :=
  if_pos h

/-- The entry is taken from the standard dialect. -/
theorem source_of_notMem (h : e ∉ K) : source K d e = standard :=
  if_neg h

/-- Nothing laid over the standard dialect leaves it as it is. -/
theorem overlay_empty (d : Dialect) : overlay ∅ d = standard := by
  simp only [overlay, source_of_notMem (Finset.notMem_empty _)]

end Overlay

/-! ### What a document states -/

/-- The entries of the table `keywords` that states the keywords among `K`. -/
def keywordEntries (K : Finset Entry) (d : Dialect) : List (Text × Text) :=
  (Operator.all.filter (Entry.keyword · ∈ K)).map fun op => (op.fieldName, d.keyword op)

/-- The field, if it has the value `v`, states what is among `K`, as it is in `d`. -/
def Field.States (K : Finset Entry) (d : Dialect) : Field → Toml.Value → Prop
  | .fieldDelimiter, v => .fieldDelimiter ∈ K ∧ v = .string [d.fieldDelimiter]
  | .quote, v => .quote ∈ K ∧ v = .string [d.quote]
  | .pair kind, v => .pair kind ∈ K ∧ v.IsTableOf (d.pair kind).entries
  | .keywords, v => v.IsTableOf (keywordEntries K d)

/-- A table `syntax` with these members states the entries `K` of the dialect, and nothing else. -/
structure StatedIn (K : Finset Entry) (d : Dialect) (members : Toml.Members) : Prop where
  /-- Every member is a field with nothing in it but these entries. -/
  only : ∀ m ∈ members, ∃ field : Field, m.1 = field.name ∧ field.States K d m.2
  /-- For every entry there is the field. -/
  all : ∀ e ∈ K, ∃ v, (e.field.name, v) ∈ members

/-- The document states the entries `K` of the dialect, and nothing else: it stands for a table with
no member but `syntax`, which states them, or with none if there is nothing to state. -/
def StatedBy (K : Finset Entry) (d : Dialect) (t : Text) : Prop :=
  ∃ members, Toml.read? t = some members ∧ (K.Nonempty → members ≠ []) ∧
    ∀ m ∈ members, m.1 = "syntax".toList ∧
      ∃ origin fields, m.2 = .table origin fields ∧ StatedIn K d fields

/-! ### A document for every set of entries -/

/-- The entries of the table `syntax` itself that are among `K`. -/
def characterEntries (K : Finset Entry) (d : Dialect) : List (Text × Text) :=
  ([(.fieldDelimiter, d.fieldDelimiter), (.quote, d.quote)].filter (·.1 ∈ K)).map
    fun e : Entry × Char => (e.1.field.name, [e.2])

/-- The tables in `syntax` that state entries among `K`, of which the table of the keywords is left
out if it is empty. -/
def partialTables (K : Finset Entry) (d : Dialect) : List (Text × List (Text × Text)) :=
  (BracketKind.all.filter (Entry.pair · ∈ K)).map
      (fun kind => ((Field.pair kind).name, (d.pair kind).entries))
    ++ [(Field.keywords.name, keywordEntries K d)].filter (!·.2.isEmpty)

/-- The document that states the entries `K` of a dialect. -/
def partialDocument (K : Finset Entry) (d : Dialect) : Text :=
  Toml.writeSections
    ({ path := ["syntax".toList], entries := characterEntries K d } ::
      (partialTables K d).map (Toml.Section.within "syntax".toList))

/-! ### Reading tables -/

section Fields

variable {name : Text} {members : Toml.Members} {names : List Text}

/-- A field that may be missing: any value it has is read as `a`, and if it has none, `a` is the
standard value. -/
theorem fieldOr_lookup {α : Type} {read : Toml.Value → Option α} {a standard : α}
    (hread : ∀ v, (name, v) ∈ members → read v = some a)
    (hnone : (∀ v, (name, v) ∉ members) → standard = a) :
    fieldOr standard read (members.lookup name) = some a := by
  cases hlookup : members.lookup name with
  | none => exact congrArg some (hnone (Toml.notMem_of_lookup hlookup))
  | some v => exact hread v (Toml.mem_of_lookup hlookup)

/-- A table all of whose names mean something is a record. -/
theorem fields?_table (h : ∀ m ∈ members, m.1 ∈ names) (surplus : Surplus)
    (origin : Toml.Origin) :
    (Toml.Value.table origin members).fields? surplus names = some members := by
  have hall : (members.all fun m => names.contains m.1 || m.2.fits) = true :=
    List.all_eq_true.mpr fun m hm => by simp [h m hm]
  rw [Toml.Value.fields?, if_pos hall]

end Fields

variable {K : Finset Entry} {d : Dialect} {v : Toml.Value} {members : Toml.Members}

/-- A pair of brackets is read from its table. -/
theorem ofValue?_of_isTableOf {p : BracketPair} (h : v.IsTableOf p.entries) (surplus : Surplus) :
    BracketPair.ofValue? surplus v = some p := by
  obtain ⟨origin, members, rfl, hmem⟩ := h
  have hside : ∀ (name : Text) (v : Toml.Value), (name, v) ∈ members ↔
      name = "open".toList ∧ v = .string [p.opening] ∨
        name = "close".toList ∧ v = .string [p.closing] := fun name v => by
    rw [hmem, BracketPair.entries]
    simp [Toml.entryMember]
  have hnames : ∀ m ∈ members, m.1 ∈ BracketPair.fieldNames := fun m hm => by
    rcases (hside m.1 m.2).mp hm with ⟨hname, -⟩ | ⟨hname, -⟩ <;>
      simp [hname, BracketPair.fieldNames]
  have hopen : members.lookup "open".toList = some (.string [p.opening]) :=
    Toml.lookup_eq_some ((hside _ _).mpr (.inl ⟨rfl, rfl⟩)) fun v' hv => by
      simpa using (hside _ _).mp hv
  have hclose : members.lookup "close".toList = some (.string [p.closing]) :=
    Toml.lookup_eq_some ((hside _ _).mpr (.inr ⟨rfl, rfl⟩)) fun v' hv => by
      simpa using (hside _ _).mp hv
  rw [BracketPair.ofValue?, fields?_table hnames]
  simp only [Option.bind_eq_bind, Option.bind_some, hopen, hclose]
  rfl

/-- The members of a table of keywords. -/
theorem mem_keywordEntries {op : Operator} {t : Text} :
    (op.fieldName, t) ∈ keywordEntries K d ↔ .keyword op ∈ K ∧ t = d.keyword op := by
  simp only [keywordEntries, List.mem_map, List.mem_filter, Prod.mk.injEq, decide_eq_true_eq]
  constructor
  · rintro ⟨op', ⟨-, hop⟩, hname, rfl⟩
    obtain rfl := Operator.fieldName_injective hname
    exact ⟨hop, rfl⟩
  · rintro ⟨hop, rfl⟩
    exact ⟨op, ⟨op.mem_all, hop⟩, rfl, rfl⟩

/-- Keywords are read from their table. -/
theorem keywords_ofValue?_of_isTableOf (h : v.IsTableOf (keywordEntries K d)) (surplus : Surplus) :
    Keywords.ofValue? surplus v = some (overlay K d).keywords := by
  obtain ⟨origin, members, rfl, hmem⟩ := h
  have hmember : ∀ (op : Operator) (v : Toml.Value), (op.fieldName, v) ∈ members ↔
      .keyword op ∈ K ∧ v = .string (d.keyword op) := fun op v => by
    simp [hmem, Toml.mem_map_entryMember, mem_keywordEntries, and_assoc]
  have hnames : ∀ m ∈ members, m.1 ∈ Keywords.fieldNames := by
    intro m hm
    obtain ⟨entry, hentry, rfl⟩ := List.mem_map.mp ((hmem m).mp hm)
    obtain ⟨op, -, rfl⟩ := List.mem_map.mp hentry
    cases op <;> simp [Toml.entryMember, Operator.fieldName, Keywords.fieldNames]
  have hkeyword : ∀ op : Operator,
      fieldOr (standard.keyword op) Toml.Value.text? (members.lookup op.fieldName)
        = some ((source K d (.keyword op)).keyword op) := by
    intro op
    refine fieldOr_lookup (fun v hv => ?_) fun hnone => ?_
    · obtain ⟨hop, rfl⟩ := (hmember op v).mp hv
      rw [source_of_mem hop, Toml.Value.text?]
    · have hop : .keyword op ∉ K := fun hop => hnone _ ((hmember op _).mpr ⟨hop, rfl⟩)
      rw [source_of_notMem hop]
  have hand := hkeyword .and
  have hor := hkeyword .or
  have hnot := hkeyword .not
  simp only [keyword, Operator.fieldName] at hand hor hnot
  rw [Keywords.ofValue?, fields?_table hnames]
  simp only [Option.bind_eq_bind, Option.bind_some, hand, hor, hnot]
  rfl

namespace StatedIn

/-- A field with a value states what is in it. -/
theorem states (h : StatedIn K d members) (field : Field) (hmem : (field.name, v) ∈ members) :
    field.States K d v := by
  obtain ⟨field', hname, hstates⟩ := h.only _ hmem
  exact Field.name_injective hname ▸ hstates

/-- What is in a field without a value is not stated. -/
theorem notMem (h : StatedIn K d members) {e : Entry} (hnone : ∀ v, (e.field.name, v) ∉ members) :
    e ∉ K := fun he =>
  (h.all e he).elim hnone

/-- A field that states one entry only: it is read as the entry of the dialect that has the say
about it. -/
theorem fieldOr_eq {α : Type} (h : StatedIn K d members) (e : Entry) (get : Dialect → α)
    {read : Toml.Value → Option α}
    (hread : ∀ v, e.field.States K d v → e ∈ K ∧ read v = some (get d)) :
    fieldOr (get standard) read (members.lookup e.field.name) = some (get (source K d e)) := by
  refine fieldOr_lookup (fun v hv => ?_) fun hnone => ?_
  · obtain ⟨he, hv⟩ := hread v (h.states e.field hv)
    rw [source_of_mem he, hv]
  · rw [source_of_notMem (h.notMem hnone)]

/-- **Reading a table that states some entries** of a dialect gives these entries laid over the
standard dialect. -/
theorem ofValue? (h : StatedIn K d members) (surplus : Surplus) (origin : Toml.Origin) :
    Dialect.ofValue? surplus (.table origin members) = some (overlay K d) := by
  have hnames : ∀ m ∈ members, m.1 ∈ fieldNames := fun m hm => by
    obtain ⟨field, hname, -⟩ := h.only m hm
    rw [hname, ← Field.map_name_all]
    exact List.mem_map_of_mem field.mem_all
  have hdelimiter : fieldOr standard.fieldDelimiter Toml.Value.char?
      (members.lookup "field_delimiter".toList) = some (overlay K d).fieldDelimiter := by
    refine h.fieldOr_eq .fieldDelimiter Dialect.fieldDelimiter ?_
    rintro _ ⟨he, rfl⟩
    exact ⟨he, rfl⟩
  have hquote : fieldOr standard.quote Toml.Value.char? (members.lookup "quote".toList)
      = some (overlay K d).quote := by
    refine h.fieldOr_eq .quote Dialect.quote ?_
    rintro _ ⟨he, rfl⟩
    exact ⟨he, rfl⟩
  have hpair : ∀ kind : BracketKind,
      fieldOr (standard.pair kind) (BracketPair.ofValue? surplus)
        (members.lookup (Field.pair kind).name) = some ((source K d (.pair kind)).pair kind) :=
    fun kind => h.fieldOr_eq (.pair kind) (·.pair kind) fun v ⟨he, htable⟩ =>
      ⟨he, ofValue?_of_isTableOf htable surplus⟩
  have hkeywords : fieldOr standard.keywords (Keywords.ofValue? surplus)
      (members.lookup "keywords".toList) = some (overlay K d).keywords := by
    refine fieldOr_lookup (fun v hv => ?_) fun hnone => ?_
    · exact keywords_ofValue?_of_isTableOf (h.states .keywords hv) surplus
    · have hop : ∀ op, Entry.keyword op ∉ K := fun op => h.notMem (e := .keyword op) hnone
      simp only [overlay, source_of_notMem (hop _)]
  have hgroup : fieldOr standard.group (BracketPair.ofValue? surplus)
      (members.lookup "group".toList) = some (overlay K d).group := hpair .group
  have hoperator : fieldOr standard.fieldOperator (BracketPair.ofValue? surplus)
      (members.lookup "field_operator".toList) = some (overlay K d).fieldOperator :=
    hpair .fieldOperator
  have hmodifier : fieldOr standard.modifier (BracketPair.ofValue? surplus)
      (members.lookup "modifier".toList) = some (overlay K d).modifier := hpair .modifier
  rw [Dialect.ofValue?, fields?_table hnames]
  simp only [Option.bind_eq_bind, Option.bind_some, hdelimiter, hquote, hgroup, hoperator,
    hmodifier, hkeywords, Option.pure_def]

end StatedIn

/-! ### The written document -/

/-- The names in the table `syntax` are names of fields, each at most once. -/
theorem names_sublist (K : Finset Entry) (d : Dialect) :
    ((characterEntries K d).map Prod.fst ++ (partialTables K d).map Prod.fst).Sublist
      fieldNames := by
  -- Each of the three parts is a row of fields from which some are left out.
  have hcharacters : ((characterEntries K d).map Prod.fst).Sublist
      [Field.fieldDelimiter.name, Field.quote.name] := by
    rw [characterEntries, List.map_map]
    exact List.filter_sublist.map _
  have hpairs : (((BracketKind.all.filter (Entry.pair · ∈ K)).map
      fun kind => ((Field.pair kind).name, (d.pair kind).entries)).map Prod.fst).Sublist
      (BracketKind.all.map fun kind => (Field.pair kind).name) := by
    rw [List.map_map]
    exact List.filter_sublist.map _
  have hkeywords : (([(Field.keywords.name, keywordEntries K d)].filter
      (!·.2.isEmpty)).map Prod.fst).Sublist [Field.keywords.name] :=
    List.filter_sublist.map Prod.fst
  rw [partialTables, List.map_append]
  exact hcharacters.append (hpairs.append hkeywords)

/-- The names of keywords differ. -/
theorem nodup_keywordEntries (K : Finset Entry) (d : Dialect) :
    ((keywordEntries K d).map Prod.fst).Nodup := by
  rw [keywordEntries, List.map_map]
  exact Operator.nodup_fieldNames.sublist (List.filter_sublist.map _)

/-- The entries of the table `syntax` itself. -/
theorem mem_characterEntries {entry : Text × Text} :
    entry ∈ characterEntries K d ↔
      .fieldDelimiter ∈ K ∧ entry = (Field.fieldDelimiter.name, [d.fieldDelimiter]) ∨
        .quote ∈ K ∧ entry = (Field.quote.name, [d.quote]) := by
  simp only [characterEntries, List.mem_map, List.mem_filter, List.mem_cons, List.not_mem_nil,
    or_false, decide_eq_true_eq]
  constructor
  · rintro ⟨_, ⟨rfl | rfl, he⟩, rfl⟩
    · exact .inl ⟨he, rfl⟩
    · exact .inr ⟨he, rfl⟩
  · rintro (⟨he, rfl⟩ | ⟨he, rfl⟩)
    · exact ⟨(.fieldDelimiter, d.fieldDelimiter), ⟨.inl rfl, he⟩, rfl⟩
    · exact ⟨(.quote, d.quote), ⟨.inr rfl, he⟩, rfl⟩

/-- The tables in `syntax`. -/
theorem mem_partialTables {table : Text × List (Text × Text)} :
    table ∈ partialTables K d ↔
      (∃ kind, .pair kind ∈ K ∧ table = ((Field.pair kind).name, (d.pair kind).entries)) ∨
        keywordEntries K d ≠ [] ∧ table = (Field.keywords.name, keywordEntries K d) := by
  rw [partialTables, List.mem_append]
  refine or_congr ?_ ?_
  · simp [BracketKind.mem_all, eq_comm]
  · simp only [List.mem_filter, List.mem_singleton, Bool.not_eq_true', List.isEmpty_eq_false_iff]
    constructor
    · rintro ⟨rfl, hne⟩
      exact ⟨hne, rfl⟩
    · rintro ⟨hne, rfl⟩
      exact ⟨rfl, hne⟩

/-- The table `syntax` of the written document states the entries. -/
theorem statedIn_partialTables (K : Finset Entry) (d : Dialect) :
    StatedIn K d ((characterEntries K d).map Toml.entryMember
      ++ (partialTables K d).map Toml.tableMember) where
  only m hm := by
    rcases List.mem_append.mp hm with hm | hm
    · obtain ⟨entry, hentry, rfl⟩ := List.mem_map.mp hm
      rcases mem_characterEntries.mp hentry with ⟨he, rfl⟩ | ⟨he, rfl⟩
      · exact ⟨.fieldDelimiter, rfl, he, rfl⟩
      · exact ⟨.quote, rfl, he, rfl⟩
    · obtain ⟨table, htable, rfl⟩ := List.mem_map.mp hm
      rcases mem_partialTables.mp htable with ⟨kind, he, rfl⟩ | ⟨-, rfl⟩
      · exact ⟨.pair kind, rfl, he, .header, _, rfl, fun _ => Iff.rfl⟩
      · exact ⟨.keywords, rfl, .header, _, rfl, fun _ => Iff.rfl⟩
  all e he := by
    have hentry : ∀ entry ∈ characterEntries K d, ∃ v, (entry.1, v) ∈
        (characterEntries K d).map Toml.entryMember ++ (partialTables K d).map Toml.tableMember :=
      fun entry hentry => ⟨_, List.mem_append_left _ (List.mem_map_of_mem hentry)⟩
    have htable : ∀ table ∈ partialTables K d, ∃ v, (table.1, v) ∈
        (characterEntries K d).map Toml.entryMember ++ (partialTables K d).map Toml.tableMember :=
      fun table htable => ⟨_, List.mem_append_right _ (List.mem_map_of_mem htable)⟩
    cases e with
    | fieldDelimiter => exact hentry _ (mem_characterEntries.mpr (.inl ⟨he, rfl⟩))
    | quote => exact hentry _ (mem_characterEntries.mpr (.inr ⟨he, rfl⟩))
    | pair kind => exact htable _ (mem_partialTables.mpr (.inl ⟨kind, he, rfl⟩))
    | keyword op =>
        have hne : keywordEntries K d ≠ [] :=
          List.ne_nil_of_mem (mem_keywordEntries.mpr ⟨he, rfl⟩)
        exact htable _ (mem_partialTables.mpr (.inr ⟨hne, rfl⟩))

/-- No name in the written document needs quotation marks. -/
theorem isBare_of_mem_partialDocument (K : Finset Entry) (d : Dialect) :
    ∀ s ∈ ({ path := ["syntax".toList], entries := characterEntries K d } : Toml.Section) ::
      (partialTables K d).map (Toml.Section.within "syntax".toList), s.isBare = true := by
  rw [List.forall_mem_cons, List.forall_mem_map]
  constructor
  · have hentries : (characterEntries K d).all (Toml.isBareName ·.1) = true :=
      List.all_eq_true.mpr fun entry hentry => by
        rcases mem_characterEntries.mp hentry with ⟨-, rfl⟩ | ⟨-, rfl⟩ <;> rfl
    exact hentries
  · intro table htable
    rcases mem_partialTables.mp htable with ⟨kind, -, rfl⟩ | ⟨-, rfl⟩
    · cases kind <;> rfl
    · have hentries : (keywordEntries K d).all (Toml.isBareName ·.1) = true :=
        List.all_eq_true.mpr fun entry hentry => by
          obtain ⟨op, -, rfl⟩ := List.mem_map.mp hentry
          cases op <;> rfl
      exact hentries

/-- **The written document states the entries** and nothing else. -/
theorem statedBy_partialDocument (K : Finset Entry) (d : Dialect) :
    StatedBy K d (partialDocument K d) := by
  have hentries : ∀ table ∈ partialTables K d, (table.2.map Prod.fst).Nodup := by
    intro table htable
    rcases mem_partialTables.mp htable with ⟨kind, -, rfl⟩ | ⟨-, rfl⟩
    · have hsides : BracketPair.fieldNames.Nodup := by decide
      exact hsides
    · exact nodup_keywordEntries K d
  have hnames := Field.nodup_fieldNames.sublist (names_sublist K d)
  have hread := Toml.read?_writeSections (isBare_of_mem_partialDocument K d)
  rw [Toml.Members.ofStatements?_sections hnames hentries] at hread
  refine ⟨_, hread, fun _ => List.cons_ne_nil _ _, ?_⟩
  rw [List.forall_mem_singleton]
  exact ⟨rfl, .header, _, rfl, statedIn_partialTables K d⟩

/-- The document that states all entries is the document of the dialect. -/
theorem partialDocument_of_forall_mem (h : ∀ e, e ∈ K) (d : Dialect) :
    partialDocument K d = d.document := by
  have hall : ∀ e : Entry, decide (e ∈ K) = true := fun e => decide_eq_true (h e)
  simp only [partialDocument, characterEntries, partialTables, keywordEntries, hall,
    List.filter_true]
  rfl

/-! ### Reading the document -/

/-- The dialect in a document that states some entries is these entries laid over the standard
dialect. -/
theorem StatedBy.ofMembers? {t : Text} (h : StatedBy K d t) :
    (Toml.read? t).bind Dialect.ofMembers? = some (overlay K d) := by
  obtain ⟨members, hread, hne, hmembers⟩ := h
  have hnames : ∀ m ∈ members, m.1 ∈ ["syntax".toList] := fun m hm =>
    List.mem_singleton.mpr (hmembers m hm).1
  have hsyntax : fieldOr standard (Dialect.ofValue? .ignored) (members.lookup "syntax".toList)
      = some (overlay K d) := by
    refine fieldOr_lookup (fun v hv => ?_) fun hnone => ?_
    · obtain ⟨-, origin, fields, rfl, hfields⟩ := hmembers _ hv
      exact hfields.ofValue? .ignored origin
    · -- Without a table `syntax` nothing is stated, so nothing is laid over the standard dialect.
      have hempty : K = ∅ := by
        by_contra hK
        obtain ⟨m, hm⟩ := List.exists_mem_of_ne_nil _ (hne (Finset.nonempty_iff_ne_empty.mpr hK))
        exact hnone m.2 ((hmembers m hm).1 ▸ hm)
      rw [hempty, overlay_empty]
  rw [hread, Option.bind_some, Dialect.ofMembers?, fields?_table hnames]
  exact hsyntax

/-- **A document that states some entries of a dialect** and nothing else is read as these entries
laid over the standard dialect, if that is a usable dialect; if not, it is refused for the reason
for which that dialect is. For every set of entries there is such a document. -/
theorem ofDocument_overlay (K : Finset Entry) (d : Dialect) (path : Path) :
    (∀ t, StatedBy K d t → ofDocument path t =
      match (overlay K d).check with
      | .ok () => .ok (overlay K d)
      | .error reason => .error (.unusable path reason)) ∧
    StatedBy K d (partialDocument K d) := by
  refine ⟨fun t ht => ?_, statedBy_partialDocument K d⟩
  rw [ofDocument, ht.ofMembers?]
  cases hcheck : (overlay K d).check with
  | ok _ => simp only [hcheck]
  | error reason => simp only [hcheck]

/-- A quote and one keyword, the other keywords being standard; and a quote that is a standard
bracket. -/
theorem ofDocument_overlay_quote :
    ofDocument "f".toList "[syntax]\nquote = \"'\"\n\n[syntax.keywords]\nnot = \"-\"\n".toList
      = .ok { standard with quote := '\'', keywords := { standard.keywords with not := ['-'] } } ∧
    ofDocument "f".toList "[syntax]\nquote = \"(\"\n".toList
      = .error (.unusable "f".toList (.repeatedCharacter '(')) := by
  have hkeyword := ofDocument_overlay {.quote, .keyword .not}
    { standard with quote := '\'', keywords := ⟨['&'], ['|'], ['-']⟩ } "f".toList
  have hbracket := ofDocument_overlay {.quote} { standard with quote := '(' } "f".toList
  have htext : "[syntax]\nquote = \"'\"\n\n[syntax.keywords]\nnot = \"-\"\n".toList
      = partialDocument {.quote, .keyword .not}
        { standard with quote := '\'', keywords := ⟨['&'], ['|'], ['-']⟩ } := by decide +kernel
  have htext' : "[syntax]\nquote = \"(\"\n".toList
      = partialDocument {.quote} { standard with quote := '(' } := by decide +kernel
  constructor
  · rw [htext, hkeyword.1 _ hkeyword.2]
    rfl
  · rw [htext', hbracket.1 _ hbracket.2]
    rfl

end Dialect

end BoolQuery
