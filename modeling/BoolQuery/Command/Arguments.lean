import BoolQuery.Files.Path

/-!
# The Command Line

A command line is `tq [options] command [options] [operands]`. Options may stand anywhere
among the operands of their command; behind `--` everything is an operand. The options
`--config PATH`, `-v` and `-h` may stand before or behind the command. One-letter options
may be written together.

Arguments are taken from left to right, and the first thing wrong with them is reported.
An operand or the value of an option counts as taken when the next argument is looked at, so
what is wrong with the value itself may be reported after what is wrong with the shape of
the argument behind it. What stands behind the command is examined before the values in
front of it.

## Main definitions

* `Command`, `Invocation`: what a command line asks for.
* `UsageError`: why a command line is not carried out.
* `Invocation.ofArguments`: reads a command line.
-/

namespace BoolQuery

/-- What to do. -/
inductive Command where
  /-- Show the tokens of a query. -/
  | tokens (query : Text)
  /-- Show the tree of a query, as JSON if wanted. -/
  | parse (query : Text) (json : Bool)
  /-- Check a query. -/
  | check (query : Text)
  /-- Filter the lines of files, or of standard input if there are none. -/
  | filter (query : Text) (files : List Path) (count invert : Bool)
  /-- Show the configuration. -/
  | config
deriving DecidableEq, Repr

/-- What a command line asks for. -/
structure Invocation where
  /-- What to do. -/
  command : Command
  /-- The configuration file to use. -/
  configPath : Option Path
  /-- How much to tell about the work. -/
  verbosity : Nat
deriving DecidableEq, Repr

/-- Why a command line is not carried out. -/
inductive UsageError where
  /-- It asks for help. -/
  | helpWanted
  /-- It is empty. -/
  | nothingGiven
  /-- It has no command. -/
  | missingCommand
  /-- There is no such command. -/
  | unknownCommand
  /-- There is no such option, or no place for such an operand. -/
  | unknownArgument
  /-- The query is missing. -/
  | missingQuery
  /-- A value is missing or empty. -/
  | missingValue
  /-- An option is given a value that it does not take. -/
  | unwantedValue
  /-- An option that may stand only once is repeated. -/
  | repeatedOption
deriving DecidableEq, Repr

/-! ### Commands and options by name -/

/-- The names of the commands. -/
inductive CommandName where
  /-- Shows tokens. -/
  | tokens
  /-- Shows trees. -/
  | parse
  /-- Checks queries. -/
  | check
  /-- Filters lines. -/
  | filter
  /-- Shows the configuration. -/
  | config
deriving DecidableEq, Repr

/-- The command of a name. -/
def CommandName.ofText? (t : Text) : Option CommandName :=
  [("tokens", .tokens), ("parse", .parse), ("check", .check), ("filter", .filter),
    ("config", CommandName.config)].findSome? fun c => if t = c.1.toList then some c.2 else none

/-- The name under which help can be asked for like a command. -/
def helpName : Text := "help".toList

/-- The options. -/
inductive Flag where
  /-- Names the configuration file. -/
  | config
  /-- Asks to tell more. -/
  | verbose
  /-- Asks for help. -/
  | help
  /-- Asks for JSON. -/
  | json
  /-- Asks for the number of lines. -/
  | count
  /-- Asks for the lines that do not match. -/
  | invert
deriving DecidableEq, Repr

/-- True when an option may stand in front of the command (`none`) or behind a command. -/
def Flag.isFor (command : Option CommandName) : Flag → Bool
  | .config | .verbose | .help => true
  | .json => command = some .parse
  | .count | .invert => command = some .filter

/-- The option of a long name that may stand at a place. -/
def Flag.ofLong? (command : Option CommandName) (name : Text) : Option Flag :=
  ([("config", .config), ("verbose", .verbose), ("help", .help), ("json", .json),
    ("count", .count), ("invert", Flag.invert)].findSome? fun f =>
      if name = f.1.toList then some f.2 else none).filter (isFor command)

/-- The option of a letter that may stand at a place. -/
def Flag.ofLetter? (command : Option CommandName) (c : Char) : Option Flag :=
  (if c = 'v' then some .verbose else if c = 'h' then some .help
    else if c = 'c' then some Flag.count else none).filter (isFor command)

/-! ### What stands on one side of the command -/

/-- What has been read but does not count as taken yet. -/
inductive Awaiting where
  /-- Nothing. -/
  | nothing
  /-- The option `--config`, the value of which must follow. -/
  | config
  /-- The value of the option `--config`. -/
  | configValue (value : Text)
  /-- The query. -/
  | query (value : Text)
  /-- Files that stand side by side. -/
  | files (values : List Text)
deriving DecidableEq, Repr

/-- What has been given in front of the command, or behind it. -/
structure Given where
  /-- The configuration file. -/
  config : Option Text := none
  /-- The number of times that more was asked for. -/
  verbosity : Nat := 0
  /-- True when JSON was asked for. -/
  json : Bool := false
  /-- True when the number of lines was asked for. -/
  count : Bool := false
  /-- True when the lines that do not match were asked for. -/
  invert : Bool := false
  /-- The query. -/
  query : Option Text := none
  /-- The files. -/
  files : List Text := []
  /-- What does not count as taken yet. -/
  awaiting : Awaiting := .nothing
deriving DecidableEq, Repr

namespace Given

/-- Takes the value of the option `--config`, which may stand once and is not empty. -/
def takeConfig (g : Given) (value : Text) : Except UsageError Given :=
  if g.config.isSome then .error .repeatedOption
  else if value.isEmpty then .error .missingValue
  else .ok { g with config := some value, awaiting := .nothing }

/-- Takes what has been read before. -/
def settle (g : Given) : Except UsageError Given :=
  match g.awaiting with
  | .nothing => .ok g
  | .config => .error .missingValue
  | .configValue value => g.takeConfig value
  | .query value => .ok { g with query := some value, awaiting := .nothing }
  | .files values =>
    if values.any List.isEmpty then .error .missingValue
    else .ok { g with files := g.files ++ values, awaiting := .nothing }

/-- Takes an option that has no value. -/
def takeFlag (g : Given) : Flag → Except UsageError Given
  | .help => .error .helpWanted
  | .config => .ok { g with awaiting := .config }
  | .verbose => .ok { g with verbosity := g.verbosity + 1 }
  | .json => if g.json then .error .repeatedOption else .ok { g with json := true }
  | .count => if g.count then .error .repeatedOption else .ok { g with count := true }
  | .invert => if g.invert then .error .repeatedOption else .ok { g with invert := true }

/-- Reads a long option without its dashes. -/
def readLong (g : Given) (command : Option CommandName) (t : Text) :
    Except UsageError Given :=
  match Flag.ofLong? command (t.takeWhile (· != '=')), t.dropWhile (· != '=') with
  | none, _ => .error .unknownArgument
  | some flag, [] => g.settle.bind (·.takeFlag flag)
  | some .config, _ :: value => g.settle.bind (·.takeConfig value)
  | some _, _ :: _ => .error .unwantedValue

/-- Reads one-letter options written together. -/
def readLetters (g : Given) (command : Option CommandName) : List Char → Except UsageError Given
  | [] => .ok g
  | c :: rest =>
    match Flag.ofLetter? command c with
    | none => .error .unknownArgument
    | some flag =>
      match g.settle.bind (·.takeFlag flag) with
      | .error e => .error e
      | .ok g => g.readLetters command rest

/-- Reads an operand behind a command. The first one is the query; files may follow the query
of a filter. -/
def readOperand (g : Given) (command : CommandName) (t : Text) : Except UsageError Given :=
  if command = .config then .error .unknownArgument
  else match g.query, g.awaiting with
    | none, .query _ | some _, _ =>
      if command = .filter then
        match g.awaiting with
        | .files values => .ok { g with awaiting := .files (values ++ [t]) }
        | _ => g.settle.map ({ · with awaiting := .files [t] })
      else .error .unknownArgument
    | none, _ => g.settle.map ({ · with awaiting := .query t })

/-- Reads an argument that begins with a dash as options, if it does: `--name`,
`--name=value`, or letters. -/
def readOption? (g : Given) (command : Option CommandName) (t : Text) :
    Option (Except UsageError Given) :=
  match t with
  | '-' :: '-' :: c :: rest => some (g.readLong command (c :: rest))
  | '-' :: c :: rest => some (g.readLetters command (c :: rest))
  | _ => none

/-- The argument behind which everything is an operand. -/
def separator : Text := "--".toList

/-- Reads the arguments behind a command; `onlyOperands` says that the separator has been
seen. -/
def readBehind (g : Given) (command : CommandName) (onlyOperands : Bool) :
    List Text → Except UsageError Given
  | [] => g.settle
  | t :: rest =>
    if !onlyOperands && t = separator then g.readBehind command true rest
    else
      let read :=
        if onlyOperands then g.readOperand command t
        else match g.readOption? (some command) t with
          | some read => read
          | none =>
            if g.awaiting = .config then .ok { g with awaiting := .configValue t }
            else g.readOperand command t
      match read with
      | .error e => .error e
      | .ok g => g.readBehind command onlyOperands rest

/-- Reads the arguments in front of the command. Gives the command with the arguments behind
it, if there is one. There are no operands in front of a command. -/
def readFront (g : Given) : List Text →
    Except UsageError (Given × Option (CommandName × List Text))
  | [] => .ok (g, none)
  | t :: rest =>
    if g.awaiting = .config then
      if t = separator then operand rest
      else match g.readOption? none t with
        | some (.error e) => .error e
        | some (.ok g) => g.readFront rest
        | none => { g with awaiting := .configValue t }.readFront rest
    else if t = helpName then .error (help rest)
    else match CommandName.ofText? t with
      | some command => .ok (g, some (command, rest))
      | none =>
        if t = separator then operand rest
        else match g.readOption? none t with
          | some (.error e) => .error e
          | some (.ok g) => g.readFront rest
          | none => .error .unknownCommand
where
  /-- The first argument behind a separator is an operand, for which there is no place. -/
  operand : List Text → Except UsageError (Given × Option (CommandName × List Text))
    | [] => .ok (g, none)
    | t :: _ =>
      if t = helpName || (CommandName.ofText? t).isSome then .error .unknownArgument
      else .error .unknownCommand
  /-- Help may be asked for by the name of a command. -/
  help : List Text → UsageError
    | [] => .helpWanted
    | [t] =>
      if t = helpName || (CommandName.ofText? t).isSome then .helpWanted else .unknownCommand
    | _ => .unknownCommand

/-- A configuration file named in the environment must not be the empty text, unless another
one is given. -/
def checkEnvironment (g : Given) (fallback? : Option Text) : Except UsageError Unit :=
  if g.config.isNone && fallback? = some [] then .error .missingValue else .ok ()

/-- The command of a name with what was given behind it. -/
def toCommand (g : Given) (command : CommandName) : Except UsageError Command :=
  match command, g.query with
  | .config, _ => .ok .config
  | _, none => .error .missingQuery
  | .tokens, some query => .ok (.tokens query)
  | .parse, some query => .ok (.parse query g.json)
  | .check, some query => .ok (.check query)
  | .filter, some query => .ok (.filter query g.files g.count g.invert)

end Given

/-- Reads a command line. The configuration file is the one given behind the command, else
the one in front of it, else the one in the environment variable. -/
def Invocation.ofArguments (fallback? : Option Text) (arguments : List Text) :
    Except UsageError Invocation := do
  let (front, command?) ← Given.readFront {} arguments
  match command? with
  | none =>
    let front ← front.settle
    front.checkEnvironment fallback?
    if front.config.isNone && fallback?.isNone && front.verbosity = 0 then
      .error .nothingGiven
    else .error .missingCommand
  | some (name, rest) =>
    let behind ← Given.readBehind {} name false rest
    behind.checkEnvironment fallback?
    let command ← behind.toCommand name
    let front ← front.settle
    front.checkEnvironment fallback?
    pure {
      command
      configPath := behind.config <|> front.config <|> fallback?
      verbosity := front.verbosity + behind.verbosity }

end BoolQuery
