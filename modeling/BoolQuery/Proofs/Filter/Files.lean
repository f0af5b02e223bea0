import BoolQuery.Command.Run
import BoolQuery.Files.Tree
import BoolQuery.Proofs.Filter.Lines
import Mathlib.Algebra.GroupWithZero.Nat

/-!
# Filtering Several Files

A filter goes through its files in order and keeps a tally: how many lines were selected, what
was written and reported, and whether some file could not be read. A file that can be read adds
its selected lines to the tally, and one that cannot adds a line to the report; neither looks at
what the other files have added. So the outcome can be told from the contents of the files that
can be read and the reasons of those that cannot.

One reason is not like the others. A broken pipe stops the filter where it is met: the files behind
it are not read, nothing is counted, and the status forgets the files that could not be read.

## Main definitions

* `Files.readable`: the contents of the files that can be read, in order.
* `Files.failures`: the report of the files that cannot be read, in order.
* `Files.Unbroken`: none of the files is a broken pipe.
* `Tally.behind`: the tally behind several files.

## Main results

* `Tally.add_eq`, `Tally.addFiles_eq`: what one file adds, and what several files add.
* `Tally.addFiles_append`: a run over some files and then over others.
* `Filter.run_eq`, `Filter.run_flatten`, `Filter.run_brokenPipe`: the outcome over several files,
  over files of whole lines, and over files with a broken pipe among them.
* `filter_files`: all of these, for a command line.
-/

namespace BoolQuery

/-! ### Files that can be read, and files that cannot -/

/-- The line that reports a file that cannot be read. -/
def FileError.report (name : Text) (reason : FileError) : Text :=
  "error: failed to read ".toList ++ name ++ ": ".toList ++ reason.message ++ ['\n']

/-- The report of an attempt to read a file: nothing if the file can be read. -/
def failureReport (name : Text) : Except FileError Bytes → Text
  | .ok _ => []
  | .error reason => reason.report name

namespace Files

variable (files : Files Id) (paths : List Path)

/-- The contents of the files that can be read, in order. -/
def readable : List Bytes :=
  paths.filterMap fun p => (files.read p).run.toOption

/-- The report of the files that cannot be read, a line for each of them, in order. -/
def failures : Text :=
  paths.flatMap fun p => failureReport p (files.read p).run

/-- None of the files is a broken pipe. -/
def Unbroken : Prop :=
  ∀ p ∈ paths, (files.read p).run ≠ .error .brokenPipe

instance : Decidable (files.Unbroken paths) :=
  inferInstanceAs (Decidable (∀ p ∈ paths, (files.read p).run ≠ .error .brokenPipe))

/-- A file in front of others. -/
theorem readable_cons (p : Path) :
    files.readable (p :: paths) = (files.read p).run.toOption.toList ++ files.readable paths := by
  rw [readable, List.filterMap_cons]
  cases (files.read p).run.toOption <;> rfl

variable {files paths}

/-- When all files can be read, nothing is reported. -/
theorem readable_of_map_eq {contents : List Bytes}
    (h : paths.map (fun p => (files.read p).run) = contents.map .ok) :
    files.readable paths = contents ∧ files.failures paths = [] ∧
      ∀ p ∈ paths, (files.read p).run.isOk = true := by
  induction paths generalizing contents with
  | nil =>
      obtain rfl : contents = [] := by simpa using h
      simp [readable, failures]
  | cons p rest ih =>
      obtain ⟨bytes, contents, rfl⟩ : ∃ bytes rest, contents = bytes :: rest :=
        List.exists_cons_of_ne_nil (by rintro rfl; simp at h)
      obtain ⟨hread, hrest⟩ := List.cons.inj h
      have hread : (files.read p).run = .ok bytes := hread
      obtain ⟨hreadable, hfailures, hok⟩ := ih hrest
      refine ⟨?_, ?_, List.forall_mem_cons.mpr ⟨?_, hok⟩⟩
      · rw [readable_cons, hread, hreadable]
        rfl
      · rw [failures, List.flatMap_cons, hread]
        exact hfailures
      · rw [hread]
        rfl

/-- A file that can be read is no broken pipe. -/
theorem unbroken_of_isOk (h : ∀ p ∈ paths, (files.read p).run.isOk = true) :
    files.Unbroken paths := by
  intro p hp hbroken
  have hok := h p hp
  rw [hbroken] at hok
  cases hok

end Files

/-! ### The tally -/

/-- The lines that a filter selects in the files that can be read, one file after the other. -/
def Filter.selectedIn (f : Filter) (files : Files Id) (paths : List Path) : List Bytes :=
  (files.readable paths).flatMap f.selected

namespace Tally

variable (f : Filter) (t : Tally)

/-- A file that can be read adds its selected lines. -/
theorem add_ok (name : Text) (bytes : Bytes) : t.add f name (.ok bytes) =
    .ok { t with
      count := t.count + (f.selected bytes).length
      output := t.output ++ if f.countOnly then [] else Bytes.ofLines (f.selected bytes) } := by
  rw [add, f.scan_eq]

/-- A file that cannot be read adds its report, unless it is a broken pipe. -/
theorem add_error (name : Text) {reason : FileError} (h : reason ≠ .brokenPipe) :
    t.add f name (.error reason) =
      .ok { t with errors := t.errors ++ reason.report name, failed := true } := by
  have hreport : t.errors ++ reason.report name
      = t.errors ++ "error: failed to read ".toList ++ name ++ ": ".toList
        ++ reason.message ++ ['\n'] := by
    delta FileError.report
    simp only [List.append_assoc]
  rw [hreport]
  cases reason with
  | brokenPipe => exact absurd rfl h
  | _ => rfl

/-- **What one file adds**, whether it can be read or not, if it is no broken pipe. -/
theorem add_eq (name : Text) {content : Except FileError Bytes} (h : content ≠ .error .brokenPipe) :
    t.add f name content = .ok
      { count := t.count + (content.toOption.toList.flatMap f.selected).length
        output := t.output ++
          if f.countOnly then [] else Bytes.ofLines (content.toOption.toList.flatMap f.selected)
        errors := t.errors ++ failureReport name content
        failed := t.failed || !content.isOk } := by
  cases content with
  | ok bytes => simp [add_ok, failureReport, Except.toOption, Except.isOk, Except.toBool]
  | error reason =>
      have hreason : reason ≠ .brokenPipe := fun heq => h (heq ▸ rfl)
      simp [add_error f t name hreason, failureReport, Except.toOption, Except.isOk,
        Except.toBool, Bytes.ofLines]

variable (files : Files Id) (paths : List Path)

/-- The tally behind several files: it has the selected lines of those that can be read, and the
reports of the others, each in the order of the files. -/
def behind : Tally where
  count := t.count + (f.selectedIn files paths).length
  output := t.output ++ if f.countOnly then [] else Bytes.ofLines (f.selectedIn files paths)
  errors := t.errors ++ files.failures paths
  failed := t.failed || paths.any fun p => !(files.read p).run.isOk

variable {files paths}

/-- **What several files add**, one step of the loop for each of them. -/
theorem addFiles_eq (h : files.Unbroken paths) :
    (addFiles f files paths t).run = .ok (t.behind f files paths) := by
  induction paths generalizing t with
  | nil =>
      simp [addFiles, behind, Filter.selectedIn, Files.readable, Files.failures, Bytes.ofLines]
  | cons p rest ih =>
      obtain ⟨hp, hrest⟩ := List.forall_mem_cons.mp h
      rw [addFiles, Id.run_bind, add_eq f t p hp]
      refine (ih _ hrest).trans (congrArg Except.ok ?_)
      rw [behind, behind, Filter.selectedIn, Filter.selectedIn, files.readable_cons]
      cases f.countOnly <;> simp [Files.failures, Nat.add_assoc, Bool.or_assoc]

/-- **A run over some files and then over others.** If the first run is stopped, there is no
second. -/
theorem addFiles_append (files : Files Id) (paths paths' : List Path) :
    (addFiles f files (paths ++ paths') t).run =
      (addFiles f files paths t).run >>= fun t' => (addFiles f files paths' t').run := by
  induction paths generalizing t with
  | nil => rfl
  | cons p rest ih =>
      rw [List.cons_append, addFiles, addFiles, Id.run_bind, Id.run_bind]
      cases t.add f p (files.read p).run with
      | error stopped => rfl
      | ok t' => exact ih t'

/-- **A broken pipe stops the run**, and the files behind it do not count. -/
theorem addFiles_brokenPipe {p : Path} (h : files.Unbroken paths)
    (hp : (files.read p).run = .error .brokenPipe) (after : List Path) :
    (addFiles f files (paths ++ p :: after) t).run = .error (t.behind f files paths).stopped := by
  rw [addFiles_append, addFiles_eq f t h]
  change (addFiles f files (p :: after) (t.behind f files paths)).run = _
  rw [addFiles, Id.run_bind, hp]
  rfl

end Tally

/-! ### The outcome -/

namespace Filter

variable (f : Filter) {env env' : Environment Id} {paths : List Path}

/-- Over files, the filter runs through them from an empty tally. -/
theorem run_of_ne_nil (hpaths : paths ≠ []) : (f.run env paths).run =
    { f.finish (Tally.addFiles f env.files paths {}).run with warnings := f.warnings } := by
  rw [run, if_neg (by simpa using hpaths)]
  rfl

/-- **The outcome over several files**, from the lines selected in those that can be read. -/
theorem run_eq (hpaths : paths ≠ []) (h : env.files.Unbroken paths) : (f.run env paths).run =
    { status :=
        if paths.any (fun p => !(env.files.read p).run.isOk) then 2
        else if (f.selectedIn env.files paths).length = 0 then 1 else 0
      output :=
        if f.countOnly then
          Utf8.encode (Nat.toDigits 10 (f.selectedIn env.files paths).length ++ ['\n'])
        else Bytes.ofLines (f.selectedIn env.files paths)
      errors := env.files.failures paths
      warnings := f.warnings } := by
  rw [f.run_of_ne_nil hpaths, Tally.addFiles_eq f {} h]
  cases hcount : f.countOnly <;> simp [finish, Tally.outcome, Tally.behind, hcount]

/-- **The outcome over files with a broken pipe among them**: that of the files before it, without
a count, and as a success. -/
theorem run_brokenPipe {p : Path} (h : env.files.Unbroken paths)
    (hp : (env.files.read p).run = .error .brokenPipe) (after : List Path) :
    (f.run env (paths ++ p :: after)).run =
      { status := 0
        output := if f.countOnly then [] else Bytes.ofLines (f.selectedIn env.files paths)
        errors := env.files.failures paths
        warnings := f.warnings } := by
  rw [f.run_of_ne_nil (by simp), Tally.addFiles_brokenPipe f {} h hp]
  simp [finish, Tally.stopped, Tally.behind]

/-- **Files of whole lines are filtered as if they were one file**, if all of them can be read.
The last file may end without a line feed. -/
theorem run_flatten {contents : List Bytes} {whole : Path} (hpaths : paths ≠ [])
    (hread : paths.map (fun p => (env.files.read p).run) = contents.map .ok)
    (hlines : ∀ bytes ∈ contents.dropLast, Bytes.WholeLines bytes)
    (hwhole : (env'.files.read whole).run = .ok contents.flatten) :
    (f.run env paths).run = (f.run env' [whole]).run := by
  obtain ⟨hreadable, hfailures, hok⟩ := Files.readable_of_map_eq hread
  have hread' : [whole].map (fun p => (env'.files.read p).run) = [contents.flatten].map .ok := by
    simp [hwhole]
  obtain ⟨hreadable', hfailures', hok'⟩ := Files.readable_of_map_eq hread'
  have hnone : (paths.any fun p => !(env.files.read p).run.isOk) = false := by
    simpa using hok
  have hnone' : ([whole].any fun p => !(env'.files.read p).run.isOk) = false := by
    simpa using hok'
  have hselected : f.selectedIn env.files paths = f.selectedIn env'.files [whole] := by
    rw [selectedIn, selectedIn, hreadable, hreadable', List.flatMap_singleton,
      f.selected_flatten hlines]
  rw [f.run_eq hpaths (Files.unbroken_of_isOk hok),
    f.run_eq (List.cons_ne_nil whole []) (Files.unbroken_of_isOk hok'), hselected, hfailures,
    hfailures', hnone, hnone']

end Filter

/-- **Filtering several files.** The lines selected in the files that can be read are written one
file after the other, or their number is, and the files that cannot be read are reported, a line
for each of them. The status is 2 if there is such a file, else 0 if a line is selected, else 1.
If all files can be read, and all but the last are whole lines, then one file with the contents
of all of them has the same outcome.

A broken pipe is no such file. There the filter ends with status 0: what the files before it have
given is written and reported, but not counted. A query that is empty gives a warning in all
cases. -/
theorem filter_files (env : Environment Id) (ctx : Context) {query : Text} {Q : Query}
    {paths : List Path} (countOnly invert : Bool) (hquery : ctx.parser.parse query = .ok Q)
    (hpaths : paths ≠ []) :
    let f : Filter := { query := Q, invert, countOnly }
    let total := ((env.files.readable paths).map fun bytes => (f.selected bytes).length).sum
    let outcome := (Command.run env ctx (.filter query paths countOnly invert)).run
    (env.files.Unbroken paths →
      outcome.output =
          (if countOnly then Utf8.encode (Nat.toDigits 10 total ++ ['\n'])
            else (env.files.readable paths).flatMap fun bytes =>
              Bytes.ofLines (f.selected bytes)) ∧
        outcome.errors = env.files.failures paths ∧
        outcome.status =
          (if paths.any fun p => !(env.files.read p).run.isOk then 2
            else if 0 < total then 0 else 1)) ∧
      outcome.warnings = (if Q.isEmpty then ["empty query matches nothing".toList] else []) ∧
      (∀ (contents : List Bytes) (env' : Environment Id) (whole : Path),
        paths.map (fun p => (env.files.read p).run) = contents.map .ok →
        (∀ bytes ∈ contents.dropLast, Bytes.WholeLines bytes) →
        (env'.files.read whole).run = .ok contents.flatten →
        (Command.run env' ctx (.filter query [whole] countOnly invert)).run = outcome) ∧
      ∀ (before : List Path) (p : Path) (after : List Path), paths = before ++ p :: after →
        env.files.Unbroken before → (env.files.read p).run = .error .brokenPipe →
        outcome.status = 0 ∧
          outcome.output =
            (if countOnly then []
              else (env.files.readable before).flatMap fun bytes =>
                Bytes.ofLines (f.selected bytes)) ∧
          outcome.errors = env.files.failures before := by
  intro f total outcome
  have hrun : ∀ (env : Environment Id) (paths : List Path),
      Command.run env ctx (.filter query paths countOnly invert) = f.run env paths := by
    intro env paths
    rw [Command.run, hquery]
  have htotal : (f.selectedIn env.files paths).length = total := by
    rw [Filter.selectedIn, List.length_flatMap]
  have hwritten : ∀ paths, Bytes.ofLines (f.selectedIn env.files paths) =
      (env.files.readable paths).flatMap fun bytes => Bytes.ofLines (f.selected bytes) := by
    intro paths
    rw [Filter.selectedIn, Bytes.ofLines, List.flatMap_assoc]
    rfl
  have houtcome : outcome = (f.run env paths).run := congrArg Id.run (hrun env paths)
  rw [houtcome]
  refine ⟨fun hunbroken => ?_, ?_, fun contents env' whole hread hlines hwhole => ?_,
    fun before p after heq hbefore hp => ?_⟩
  · rw [f.run_eq hpaths hunbroken, htotal, hwritten]
    refine ⟨rfl, rfl, ?_⟩
    cases total <;> simp
  · rw [f.run_of_ne_nil hpaths]
    rfl
  · rw [hrun, ← f.run_flatten hpaths hread hlines hwhole]
  · subst heq
    rw [f.run_brokenPipe hbefore hp, hwritten]
    exact ⟨rfl, rfl, rfl⟩

/-- Three files: `x` has whole lines, `z` has not, and `w` is `x` with `z` behind it. -/
def sampleTree : FileTree where
  files := [(["x".toList], Utf8.encode "ab\r\n\nb\n".toList),
    (["z".toList], Utf8.encode "a b".toList),
    (["w".toList], Utf8.encode "ab\r\n\nb\na b".toList)]

/-- These files, and besides them `v`, a broken pipe. -/
def sampleEnvironment : Environment Id where
  files := { sampleTree.access [] with
    read := fun p =>
      if p = "v".toList then pure (.error .brokenPipe) else (sampleTree.access []).read p }
  directory := []
  home := none
  input := pure (.error .missing)

/-- The standard configuration. -/
def sampleContext : Context where
  config := { dialect := .standard, source := none }
  parser := ⟨.standard, rfl⟩

/-- Filtering some of these files in the standard dialect. -/
def sampleRun (query : Text) (paths : List Path) (countOnly invert : Bool) : Outcome :=
  (Command.run sampleEnvironment sampleContext (.filter query paths countOnly invert)).run

/-- A missing file between two others is reported, and the lines selected in the others are
written, or counted with repetitions. The two others are filtered as one. With a broken pipe behind
them the missing file is reported as before, but the status is 0. -/
theorem filter_files_missing :
    Dialect.standard.parse "a".toList = .ok ⟨some (.term { value := "a".toList })⟩ ∧
    sampleRun "a".toList ["x".toList, "y".toList, "z".toList] false false =
      { status := 2
        output := Utf8.encode "ab\na b\n".toList
        errors := "error: failed to read y: No such file or directory (os error 2)\n".toList } ∧
    sampleRun "a".toList ["x".toList, "x".toList, "z".toList] true true =
      { status := 0, output := Utf8.encode "4\n".toList } ∧
    sampleRun "a".toList ["w".toList] false true =
      sampleRun "a".toList ["x".toList, "z".toList] false true ∧
    sampleRun "a".toList ["x".toList, "y".toList, "v".toList, "z".toList] false false =
      { status := 0
        output := Utf8.encode "ab\n".toList
        errors := "error: failed to read y: No such file or directory (os error 2)\n".toList } ∧
    sampleRun [] ["x".toList] false true =
      { status := 0
        output := Utf8.encode "ab\n\nb\n".toList
        warnings := ["empty query matches nothing".toList] } := by
  have hparse : sampleContext.parser.parse "a".toList
      = .ok ⟨some (.term { value := "a".toList })⟩ := by
    decide +kernel
  have hrun := fun (paths : List Path) countOnly invert (hpaths : paths ≠ []) =>
    filter_files sampleEnvironment sampleContext countOnly invert hparse hpaths
  refine ⟨hparse, ?missing, ?counted, ?whole, ?broken, ?empty⟩
  case missing =>
    obtain ⟨hfiles, hwarnings, -, -⟩ :=
      hrun ["x".toList, "y".toList, "z".toList] false false (by decide)
    obtain ⟨houtput, herrors, hstatus⟩ := hfiles (by decide +kernel)
    refine Outcome.ext (hstatus.trans ?_) (houtput.trans ?_) (herrors.trans ?_) hwarnings
      <;> decide +kernel
  case counted =>
    obtain ⟨hfiles, hwarnings, -, -⟩ :=
      hrun ["x".toList, "x".toList, "z".toList] true true (by decide)
    obtain ⟨houtput, herrors, hstatus⟩ := hfiles (by decide +kernel)
    refine Outcome.ext (hstatus.trans ?_) (houtput.trans ?_) (herrors.trans ?_) hwarnings
      <;> decide +kernel
  case whole =>
    obtain ⟨-, -, hwhole, -⟩ := hrun ["x".toList, "z".toList] false true (by decide)
    refine hwhole [Utf8.encode "ab\r\n\nb\n".toList, Utf8.encode "a b".toList] _ "w".toList ?_ ?_ ?_
      <;> decide +kernel
  case broken =>
    obtain ⟨-, hwarnings, -, hbroken⟩ :=
      hrun ["x".toList, "y".toList, "v".toList, "z".toList] false false (by decide)
    obtain ⟨hstatus, houtput, herrors⟩ :=
      hbroken ["x".toList, "y".toList] "v".toList ["z".toList] rfl (by decide +kernel) rfl
    refine Outcome.ext hstatus (houtput.trans ?_) (herrors.trans ?_) hwarnings <;> decide +kernel
  case empty =>
    have hempty : sampleContext.parser.parse [] = .ok Query.empty := by decide +kernel
    obtain ⟨hfiles, hwarnings, -, -⟩ := filter_files sampleEnvironment sampleContext false true
      hempty (List.cons_ne_nil "x".toList [])
    obtain ⟨houtput, herrors, hstatus⟩ := hfiles (by decide +kernel)
    refine Outcome.ext (hstatus.trans ?_) (houtput.trans ?_) (herrors.trans ?_) hwarnings
      <;> decide +kernel

end BoolQuery
