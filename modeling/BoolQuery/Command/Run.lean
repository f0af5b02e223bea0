import BoolQuery.Command.Arguments
import BoolQuery.Config.Basic
import BoolQuery.Filter
import BoolQuery.Query.Canonical
import BoolQuery.Query.Json
import BoolQuery.Query.Outline
import BoolQuery.Query.Parse

/-!
# Carrying Out Commands

A command line is carried out in an environment: files, a working directory, a home
directory, and standard input. The outcome is an exit status with the bytes for standard
output and the text for standard error. It is what is handed to the standard streams; whether
they take it is not part of it.

The exit status is 0 for success. It is 1 for a faulty query, and for a filter that selects
nothing; it is 2 if the configuration or an input cannot be read, and for a faulty query of
a filter. A filter that comes upon a pipe whose other end is closed stops at once, with
status 0 whatever came before.

## Main definitions

* `Environment`, `Outcome`: what a command sees and what it leaves behind.
* `Tally`: what filtering several inputs has come to so far.
* `Context`: what the commands of an invocation share.
* `Command.run`: carries out a command in a context.
* `Invocation.run`: loads the context and carries out the command.
-/

namespace BoolQuery

/-- What a command sees. -/
structure Environment (m : Type → Type) where
  /-- The files. -/
  files : Files m
  /-- The working directory. -/
  directory : Path
  /-- The home directory. -/
  home : Option Path
  /-- Standard input. -/
  input : m (Except FileError Bytes)

/-- What a command leaves behind. -/
@[ext]
structure Outcome where
  /-- The exit status. -/
  status : Nat
  /-- The bytes for standard output. -/
  output : Bytes := []
  /-- The text for standard error. -/
  errors : Text := []
  /-- The warnings in the log, which stand on standard error in front of the errors. -/
  warnings : List Text := []
deriving DecidableEq, Repr

namespace Outcome

/-- Success with a text for standard output. -/
def success (t : Text) : Outcome :=
  { status := 0, output := Utf8.encode t }

/-- Failure with a line for standard error. -/
def failure (status : Nat) (line : Text) : Outcome :=
  { status, errors := line ++ ['\n'] }

end Outcome

/-! ### Single commands -/

/-- The result of a query command: what `show` makes of a good query, or a report. -/
def Outcome.ofResult {α : Type} (display : α → Text) : Except ParseError α → Outcome
  | .ok a => .success (display a)
  | .error e => .failure 1 e.report

/-- A number, flush right in four places. -/
def padded (n : Nat) : Text :=
  let digits := Nat.toDigits 10 n
  List.replicate (4 - digits.length) ' ' ++ digits

/-- A token on a line with its place, operators by their keywords in the dialect. -/
def Token.line (d : Dialect) (t : Token) : Text :=
  padded t.position ++ "  ".toList ++ t.kind.display d.keyword ++ ['\n']

/-- The configuration as it is shown: where it came from, and the document that describes
it. -/
def Config.display (c : Config) : Text :=
  "# source: ".toList ++ c.source.getD "(default)".toList ++ ['\n'] ++ c.dialect.document

/-! ### Filtering several inputs -/

/-- What filtering the inputs so far has come to. -/
structure Tally where
  /-- The number of selected lines. -/
  count : Nat := 0
  /-- What was written. -/
  output : Bytes := []
  /-- What was reported. -/
  errors : Text := []
  /-- True when an input could not be read. -/
  failed : Bool := false
deriving DecidableEq, Repr

namespace Tally

/-- The outcome of a filter that stops before it is done: success, with what was written and
reported so far. -/
def stopped (t : Tally) : Outcome where
  status := 0
  output := t.output
  errors := t.errors

/-- Adds an input; `name` is what a report calls it. An input that cannot be read is reported
and otherwise passed over. Only a broken pipe is not reported: it stops the filter. -/
def add (f : Filter) (name : Text) (content : Except FileError Bytes) (t : Tally) :
    Except Outcome Tally :=
  match content with
  | .ok bytes =>
    let selection := f.scan bytes
    .ok { t with count := t.count + selection.count, output := t.output ++ selection.output }
  | .error .brokenPipe => .error t.stopped
  | .error reason =>
    .ok { t with
      errors := t.errors ++ "error: failed to read ".toList ++ name ++ ": ".toList
        ++ reason.message ++ ['\n']
      failed := true }

/-- The outcome of a filter. The status says whether an input could not be read, else
whether anything was selected. -/
def outcome (f : Filter) (t : Tally) : Outcome where
  status := if t.failed then 2 else if t.count = 0 then 1 else 0
  output :=
    if f.countOnly then t.output ++ Utf8.encode (Nat.toDigits 10 t.count ++ ['\n'])
    else t.output
  errors := t.errors

variable {m : Type → Type} [Monad m]

/-- Adds the files at the given paths, in order. Behind a broken pipe no file is read. -/
def addFiles (f : Filter) (files : Files m) : List Path → Tally → m (Except Outcome Tally)
  | [], t => pure (.ok t)
  | p :: rest, t => do
    let content ← files.read p
    match t.add f p content with
    | .error stopped => pure (.error stopped)
    | .ok t => addFiles f files rest t

end Tally

/-- The outcome of a filter from its tally, unless it was stopped. -/
def Filter.finish (f : Filter) : Except Outcome Tally → Outcome
  | .error stopped => stopped
  | .ok t => t.outcome f

/-- The warnings about a filter. -/
def Filter.warnings (f : Filter) : List Text :=
  if f.query.isEmpty then ["empty query matches nothing".toList] else []

variable {m : Type → Type} [Monad m]

/-- Filters the files at the given paths, or standard input if there are none. -/
def Filter.run (f : Filter) (env : Environment m) (paths : List Path) : m Outcome := do
  let tally ←
    if paths.isEmpty then do
      let content ← env.input
      pure (Tally.add f "standard input".toList content {})
    else Tally.addFiles f env.files paths {}
  pure { f.finish tally with warnings := f.warnings }

/-! ### Whole command lines -/

/-- What the commands of an invocation share. -/
structure Context where
  /-- The configuration. -/
  config : Config
  /-- The parser for its dialect. -/
  parser : Parser

/-- Carries out a command. -/
def Command.run (env : Environment m) (ctx : Context) : Command → m Outcome
  | .tokens query =>
    pure (.ofResult (fun ts => ts.flatMap (Token.line ctx.parser.dialect))
      (ctx.parser.tokenize query))
  | .parse query false => pure (.ofResult Query.outline (ctx.parser.parse query))
  | .parse query true =>
    pure (.ofResult (fun q => q.json .indented ++ ['\n']) (ctx.parser.parse query))
  | .check query =>
    pure (.ofResult (fun q => "ok: ".toList ++ q.canonical ctx.parser.dialect ++ ['\n'])
      (ctx.parser.parse query))
  | .filter query paths countOnly invert =>
    match ctx.parser.parse query with
    | .error e => pure (.failure 2 e.report)
    | .ok query => Filter.run { query, invert, countOnly } env paths
  | .config => pure (.success ctx.config.display)

namespace Invocation

/-- The configuration that an invocation runs under: the one in the file it names, or the one
that applies to the working directory. -/
def loadConfig (i : Invocation) (env : Environment m) : m (Except ConfigError Config) :=
  match i.configPath with
  | some path => Config.loadFile env.files path
  | none => Config.load env.files env.home env.directory

/-- The context that an invocation runs in, or the outcome if there is none: the configuration
must be one that can be loaded, and its dialect one that a parser can be made for. -/
def loadContext (i : Invocation) (env : Environment m) : m (Except Outcome Context) := do
  match ← i.loadConfig env with
  | .error e =>
    pure (.error (.failure 2 ("error: failed to load configuration: ".toList ++ e.message)))
  | .ok config =>
    match config.parser with
    | .error e => pure (.error (.failure 2 ("error: invalid query syntax: ".toList ++ e.message)))
    | .ok parser => pure (.ok { config, parser })

/-- Loads the context and carries out the command. -/
def run (i : Invocation) (env : Environment m) : m Outcome := do
  match ← i.loadContext env with
  | .error outcome => pure outcome
  | .ok ctx => i.command.run env ctx

end Invocation

end BoolQuery
