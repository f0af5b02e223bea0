import BoolQuery.Command.Run
import BoolQuery.Files.Tree
import BoolQuery.Proofs.Files.Ancestors

/-!
# The Configuration That Applies

The search for a configuration file goes from the starting directory to the root, or to the
working directory if the start is relative, and looks at the home directory last. It takes the
first regular file it meets. From there on nothing but that one file counts: what it holds decides
whether there is a configuration at all, and no other file is ever read in its place or merged
into it.

So the configuration depends on two things only: which of the places up to the chosen one hold a
regular file, and what the chosen file holds. A configuration file that is named on the command
line takes the place of the search.

## Main definitions

* `Config.Applies`: the file that applies to a directory, or that none does.
* `Config.Describes`: the contents of files that describe a usable dialect.

## Main results

* `Config.applies_iff`: the search finds the file that applies.
* `Config.loadFile_eq_ok_iff`: a file gives a configuration if it describes a usable dialect, and
  only then.
* `Config.load_congr`: files that are not chosen do not count.
* `Invocation.loadContext_eq_ok`: what is loaded has a parser.
* `Config.load_closest`: all of this, for every state of the files.
-/

namespace BoolQuery

/-! ### The first file -/

/-- The search for a file is the search of a list. -/
theorem Files.firstFile?_eq (files : Files Id) (paths : List Path) :
    (files.firstFile? paths).run = paths.find? fun p => (files.isFile p).run := by
  induction paths with
  | nil => rfl
  | cons p rest ih =>
      rw [Files.firstFile?, List.find?_cons, ← ih, Id.run_bind]
      cases (files.isFile p).run <;> rfl

/-- A search that is answered the same up to its end finds the same. -/
theorem find?_congr_takeWhile {α : Type} {p q : α → Bool} {l : List α}
    (h : ∀ a ∈ l.takeWhile (!p ·) ++ (l.find? p).toList, q a = p a) : l.find? q = l.find? p := by
  induction l with
  | nil => rfl
  | cons a l ih =>
      have hhead : q a = p a := h a (by cases ha : p a <;> simp [ha])
      rw [List.find?_cons, List.find?_cons, hhead]
      cases ha : p a with
      | true => rfl
      | false =>
          refine ih fun b hb => h b ?_
          rw [List.takeWhile_cons_of_pos (by simp [ha]), List.find?_cons_of_neg (by simp [ha])]
          exact List.mem_cons_of_mem a hb

/-! ### What a file holds -/

/-- A document describes a dialect if there is one in it, and it can be used. -/
theorem Dialect.ofDocument_eq_ok_iff {path : Path} {t : Text} {d : Dialect} :
    ofDocument path t = .ok d ↔ (Toml.read? t).bind ofMembers? = some d ∧ d.check = .ok () := by
  rw [ofDocument]
  cases (Toml.read? t).bind ofMembers? with
  | none => simp
  | some e =>
      dsimp only
      rw [Option.some.injEq]
      constructor
      · intro h
        split at h
        · cases h
        · next hcheck =>
          obtain rfl := Except.ok.inj h
          exact ⟨rfl, hcheck⟩
      · rintro ⟨rfl, hcheck⟩
        rw [hcheck]

/-- A parser is made for its own dialect, and for no other. -/
theorem Parser.ofDialect_eq_ok_iff {d : Dialect} {p : Parser} :
    ofDialect d = .ok p ↔ p.dialect = d := by
  obtain ⟨e, husable⟩ := p
  rw [ofDialect]
  constructor
  · intro h
    split at h
    · cases h
    · exact (congrArg Parser.dialect (Except.ok.inj h)).symm
  · rintro rfl
    split
    · next hfault => exact absurd (husable.symm.trans hfault) nofun
    · rfl

namespace Config

variable {files files' : Files Id} {home : Option Path} {start path : Path}
  {source : Option Path} {c : Config}

/-- True of contents of files that describe the dialect `d`, which can be used: the file can be
read, its bytes are a text, the text is a document with `d` in it, and `d` passes the check. -/
def Describes (content : Except FileError Bytes) (d : Dialect) : Prop :=
  ∃ bytes t, content = .ok bytes ∧ Utf8.decode? bytes = some t ∧
    (Toml.read? t).bind Dialect.ofMembers? = some d ∧ d.check = .ok ()

/-- **A file gives a configuration** if it describes a dialect that can be used, and only then. -/
theorem loadFile_eq_ok_iff : (loadFile files path).run = .ok c ↔
    Describes (files.read path).run c.dialect ∧ c.source = some path := by
  have hrun : (loadFile files path).run = ofFile path (files.read path).run := rfl
  rw [hrun, ofFile.eq_def]
  constructor
  · intro h
    split at h
    · cases h
    · next bytes hread =>
      split at h
      · cases h
      · next t hdecode =>
        cases hdocument : Dialect.ofDocument path t with
        | error e =>
            rw [hdocument] at h
            cases h
        | ok d =>
            rw [hdocument] at h
            obtain rfl := Except.ok.inj h
            exact ⟨⟨bytes, t, hread, hdecode, Dialect.ofDocument_eq_ok_iff.mp hdocument⟩, rfl⟩
  · rintro ⟨⟨bytes, t, hread, hdecode, hdocument⟩, hsource⟩
    rw [hread]
    dsimp only
    rw [hdecode]
    dsimp only
    rw [Dialect.ofDocument_eq_ok_iff.mpr hdocument, ← hsource]
    rfl

/-- A dialect that is loaded from a file can be used. -/
theorem check_of_loadFile (h : (loadFile files path).run = .ok c) :
    c.dialect.check = .ok () := by
  obtain ⟨⟨bytes, t, hread, hdecode, hmembers, hcheck⟩, hsource⟩ := loadFile_eq_ok_iff.mp h
  exact hcheck

/-! ### The file that applies -/

/-- True when there is a configuration file in a directory. -/
def presentIn (files : Files Id) (directory : Path) : Bool :=
  (files.isFile (directory.join fileName)).run

/-- The file that applies to the directory `start`, or that none does. -/
inductive Applies (files : Files Id) (home : Option Path) (start : Path) : Option Path → Prop
  /-- The file is in an ancestor of the directory, and no nearer one has a file. -/
  | near {nearer farther : List Path} {directory : Path}
      (hancestors : start.ancestors = nearer ++ directory :: farther)
      (hmissing : ∀ p ∈ nearer, presentIn files p = false)
      (hfile : presentIn files directory = true) :
      Applies files home start (some (directory.join fileName))
  /-- No ancestor has a file, but the home directory has one. -/
  | global {directory : Path} (hmissing : ∀ p ∈ start.ancestors, presentIn files p = false)
      (hhome : home = some directory) (hfile : presentIn files directory = true) :
      Applies files home start (some (directory.join fileName))
  /-- There is no file in any of these places. -/
  | standard (hmissing : ∀ p ∈ start.ancestors, presentIn files p = false)
      (hglobal : ∀ directory ∈ home, presentIn files directory = false) :
      Applies files home start none

/-- The search goes through the ancestors, and then looks at the home directory. -/
theorem find?_eq (files : Files Id) (home : Option Path) (start : Path) :
    (find? files home start).run =
      ((start.ancestors ++ home.toList).find? (presentIn files)).map (·.join fileName) := by
  have hcandidates : candidates home start =
      (start.ancestors ++ home.toList).map (·.join fileName) := by
    cases home <;> simp [candidates, globalPath?]
  rw [find?, Files.firstFile?_eq, hcandidates, List.find?_map]
  rfl

/-- Some file applies, or that none does. -/
theorem exists_applies (files : Files Id) (home : Option Path) (start : Path) :
    ∃ source, Applies files home start source := by
  cases hnear : start.ancestors.find? (presentIn files) with
  | some directory =>
      obtain ⟨hfile, nearer, farther, hancestors, hmissing⟩ :=
        List.find?_eq_some_iff_append.mp hnear
      exact ⟨_, .near hancestors (by simpa using hmissing) hfile⟩
  | none =>
      have hmissing : ∀ p ∈ start.ancestors, presentIn files p = false := by
        simpa using List.find?_eq_none.mp hnear
      cases home with
      | none => exact ⟨_, .standard hmissing nofun⟩
      | some directory =>
          cases hfile : presentIn files directory with
          | true => exact ⟨_, .global hmissing rfl hfile⟩
          | false => exact ⟨_, .standard hmissing (by simpa using hfile)⟩

/-- The search finds the file that applies. -/
theorem find?_of_applies (h : Applies files home start source) :
    (find? files home start).run = source := by
  rw [find?_eq]
  cases h with
  | near hancestors hmissing hfile =>
      rw [List.find?_eq_some_iff_append.mpr
        ⟨hfile, _, _, by rw [hancestors, List.append_assoc]; rfl, by simpa using hmissing⟩]
      rfl
  | @global directory hmissing hhome hfile =>
      have hfound : (start.ancestors ++ [directory]).find? (presentIn files) = some directory :=
        List.find?_eq_some_iff_append.mpr ⟨hfile, _, [], rfl, by simpa using hmissing⟩
      rw [hhome, Option.toList_some, hfound]
      rfl
  | standard hmissing hglobal =>
      rw [List.find?_eq_none.mpr]
      · rfl
      · simpa [or_imp, forall_and] using And.intro hmissing hglobal

/-- **The search decides which file applies**, and there is only one. -/
theorem applies_iff : Applies files home start source ↔ source = (find? files home start).run := by
  constructor
  · intro h
    exact (find?_of_applies h).symm
  · rintro rfl
    obtain ⟨source, h⟩ := exists_applies files home start
    rwa [find?_of_applies h]

/-! ### The configuration that applies -/

/-- The configuration is the one in the file that the search finds, and the standard one if it
finds none. -/
theorem load_eq (files : Files Id) (home : Option Path) (start : Path) :
    (load files home start).run =
      (find? files home start).run.elim (.ok { dialect := .standard, source := none })
        fun path => (loadFile files path).run := by
  rw [load, Id.run_bind]
  cases (find? files home start).run <;> rfl

/-- The dialect of the configuration that applies can be used, too. -/
theorem check_of_load (h : (load files home start).run = .ok c) : c.dialect.check = .ok () := by
  rw [load_eq] at h
  cases hfind : (find? files home start).run with
  | none =>
      rw [hfind] at h
      obtain rfl := Except.ok.inj h
      decide
  | some path =>
      rw [hfind] at h
      exact check_of_loadFile h

/-- **Files that are not chosen do not count.** If the places up to the one where the search ends
are as they were, and the chosen file holds what it did, then so is the configuration. -/
theorem load_congr
    (hfile : ∀ p ∈ (candidates home start).takeWhile (fun p => !(files.isFile p).run)
        ++ (find? files home start).run.toList,
      (files'.isFile p).run = (files.isFile p).run)
    (hread : ∀ p ∈ (find? files home start).run, (files'.read p).run = (files.read p).run) :
    (load files' home start).run = (load files home start).run := by
  have hfind : (find? files' home start).run = (find? files home start).run := by
    rw [find?, Files.firstFile?_eq] at hfile ⊢
    rw [find?, Files.firstFile?_eq]
    exact find?_congr_takeWhile hfile
  rw [load_eq, load_eq, hfind]
  cases hsource : (find? files home start).run with
  | none => rfl
  | some path => exact congrArg (ofFile path) (hread path hsource)

/-- What an invocation loads can be used: the configuration is that of a file, or the one that
applies to the working directory. -/
theorem check_of_loadConfig {i : Invocation} {env : Environment Id}
    (h : (i.loadConfig env).run = .ok c) : c.dialect.check = .ok () := by
  rw [Invocation.loadConfig] at h
  split at h
  · exact check_of_loadFile h
  · exact check_of_load h

end Config

namespace Invocation

variable {i : Invocation} {env env' : Environment Id}

/-- The context depends on the configuration only. -/
theorem loadContext_congr (h : (i.loadConfig env').run = (i.loadConfig env).run) :
    (i.loadContext env').run = (i.loadContext env).run := by
  rw [loadContext, loadContext, Id.run_bind, Id.run_bind, h]

/-- **Without a configuration there is no context**, but a report. -/
theorem loadContext_eq_error {e : ConfigError} (h : (i.loadConfig env).run = .error e) :
    (i.loadContext env).run =
      .error (.failure 2 ("error: failed to load configuration: ".toList ++ e.message)) := by
  rw [loadContext, Id.run_bind, h]
  rfl

/-- **What is loaded has a parser**, since it has passed the check. -/
theorem loadContext_eq_ok {c : Config} (h : (i.loadConfig env).run = .ok c) :
    ∃ parser, c.parser = .ok parser ∧ parser.dialect = c.dialect ∧
      (i.loadContext env).run = .ok { config := c, parser } := by
  have hparser : c.parser = .ok ⟨c.dialect, Config.check_of_loadConfig h⟩ :=
    Parser.ofDialect_eq_ok_iff.mpr rfl
  refine ⟨_, hparser, rfl, ?_⟩
  rw [loadContext, Id.run_bind, h]
  dsimp only
  rw [hparser]
  rfl

end Invocation

namespace Config

/-- **The closest file wins, and it wins alone.** The places where the search looks are the initial
parts of the start, longest first, each with the name of configuration files added. In every state
of the files there is exactly one file that applies, or it is settled that none does. The
configuration is then the one in this file, its errors included, and the standard one if there is
none; other files may come and go behind it, or change, and it stays the same.

A file gives a configuration exactly if it describes a dialect that can be used. A file that is
named on the command line is loaded whatever the search would find, so nothing but its content
counts. An error ends the invocation with a report. All dialects that are loaded can be used, so
there is a parser for them, and the invocation runs with it. -/
theorem load_closest (files : Files Id) (home : Option Path) (start : Path) :
    (start.ancestors.map fun directory => (directory.join fileName).components) =
        (if start.IsAbsolute then start.components.inits.reverse.dropLast
          else start.components.inits.reverse).map (· ++ [fileName]) ∧
      (∃ source : Option Path,
        (∀ other, Applies files home start other ↔ other = source) ∧
        (load files home start).run = source.elim (.ok { dialect := .standard, source := none })
          (fun path => (loadFile files path).run) ∧
        ∀ files' : Files Id,
          (∀ p ∈ (candidates home start).takeWhile (fun p => !(files.isFile p).run)
              ++ source.toList, (files'.isFile p).run = (files.isFile p).run) →
          (∀ p ∈ source, (files'.read p).run = (files.read p).run) →
          (load files' home start).run = (load files home start).run) ∧
      (∀ path c, (loadFile files path).run = .ok c ↔
        Describes (files.read path).run c.dialect ∧ c.source = some path) ∧
      (∀ (i : Invocation) (path : Path) (env env' : Environment Id),
        i.configPath = some path → (env'.files.read path).run = (env.files.read path).run →
        (i.loadConfig env).run = (loadFile env.files path).run ∧
          (i.loadConfig env').run = (i.loadConfig env).run ∧
          (i.loadContext env').run = (i.loadContext env).run) ∧
      (∀ (i : Invocation) (env : Environment Id) e, (i.loadConfig env).run = .error e →
        (i.loadContext env).run =
          .error (.failure 2 ("error: failed to load configuration: ".toList ++ e.message))) ∧
      ∀ (i : Invocation) (env : Environment Id) c,
        (i.loadConfig env).run = .ok c → c.dialect.check = .ok () ∧
          ∃ parser, c.parser = .ok parser ∧ parser.dialect = c.dialect ∧
            (i.loadContext env).run = .ok { config := c, parser } := by
  refine ⟨?_, ⟨(find? files home start).run, fun other => applies_iff, load_eq files home start,
    fun files' hfile hread => load_congr hfile hread⟩, fun path c => loadFile_eq_ok_iff, ?_,
    fun i env e h => Invocation.loadContext_eq_error h,
    fun i env c h => ⟨check_of_loadConfig h, Invocation.loadContext_eq_ok h⟩⟩
  · rw [← Path.map_components_ancestors, List.map_map]
    refine List.map_congr_left fun directory _ => ?_
    exact Path.components_join (by decide) (by decide) directory
  · intro i path env env' hpath hread
    have hload : ∀ env : Environment Id, i.loadConfig env = loadFile env.files path := by
      intro env
      rw [Invocation.loadConfig, hpath]
    have hconfig : (i.loadConfig env').run = (i.loadConfig env).run := by
      rw [hload, hload]
      exact congrArg (ofFile path) hread
    exact ⟨congrArg Id.run (hload env), hconfig, Invocation.loadContext_congr hconfig⟩

/-- A configuration file in `/a`, and an empty one, which is a good one, behind it in the root. -/
def nestedFiles (content : Bytes) : Files Id :=
  FileTree.access { files := [(["a".toList, fileName], content), ([fileName], [])] } []

/-- Contents of configuration files with what is wrong with them: they are not a text, not a
document, not a document of the right shape, or they use a character twice. -/
def faultyContents : List (Bytes × (Path → ConfigError)) :=
  [([0xFF], (.unreadable · .notText)),
    (Utf8.encode "[syntax".toList, .malformed),
    (Utf8.encode "syntax = 1".toList, .malformed),
    (Utf8.encode "[syntax]\nquote = \":\"".toList, (.unusable · (.repeatedCharacter ':')))]

/-- In the root there is a good configuration, and below it every faulty file hides that: there is
an error for the file, and no configuration. -/
theorem load_closest_faulty :
    (load (nestedFiles []) none "/".toList).run =
      .ok { dialect := .standard, source := some "/.textquery.toml".toList } ∧
    ∀ entry ∈ faultyContents, (load (nestedFiles entry.1) none "/a/b".toList).run =
      .error (entry.2 "/a/.textquery.toml".toList) := by
  constructor
  · obtain ⟨-, ⟨source, hsource, hload, -⟩, -⟩ := load_closest (nestedFiles []) none "/".toList
    have hroot : Applies (nestedFiles []) none "/".toList (some "/.textquery.toml".toList) :=
      @Applies.near _ _ _ [] [] "/".toList (by decide +kernel) (by decide) (by decide +kernel)
    rw [hload, ← (hsource _).mp hroot]
    decide +kernel
  · intro entry hentry
    obtain ⟨-, ⟨source, hsource, hload, -⟩, -⟩ :=
      load_closest (nestedFiles entry.1) none "/a/b".toList
    -- What depends on the entry is decided for all entries at once.
    have hmissing : ∀ entry ∈ faultyContents, ∀ p ∈ ["/a/b".toList],
        presentIn (nestedFiles entry.1) p = false := by
      decide +kernel
    have hfile : ∀ entry ∈ faultyContents, presentIn (nestedFiles entry.1) "/a".toList = true := by
      decide +kernel
    have herror : ∀ entry ∈ faultyContents,
        (loadFile (nestedFiles entry.1) "/a/.textquery.toml".toList).run =
          .error (entry.2 "/a/.textquery.toml".toList) := by
      decide +kernel
    have hnear : Applies (nestedFiles entry.1) none "/a/b".toList
        (some "/a/.textquery.toml".toList) :=
      @Applies.near _ _ _ ["/a/b".toList] ["/".toList] "/a".toList (by decide +kernel)
        (hmissing entry hentry) (hfile entry hentry)
    rw [hload, ← (hsource _).mp hnear]
    exact herror entry hentry

end Config

end BoolQuery
