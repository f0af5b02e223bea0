import BoolQuery.Command.Run

/-!
# The Program

The program `tq` reads its command line, carries out the command on the files of the machine,
and writes the outcome to the standard streams.
-/

namespace BoolQuery

/-- The reason behind a failure of the system. -/
def FileError.ofSystem (e : IO.Error) : FileError :=
  match e with
  | .noFileOrDirectory .. => .missing
  | .inappropriateType .. => .notDirectory
  | .resourceVanished 32 _ => .brokenPipe
  | e => .other (toString e).toList

/-- The bytes of a file of the machine. -/
def readMachineFile (p : Path) : IO (Except FileError Bytes) := do
  if p.isEmpty then
    return .error .missing
  let place := (← IO.currentDir) / String.ofList p
  if ← place.isDir then
    return .error .isDirectory
  try
    return .ok (← IO.FS.readBinFile place).toList
  catch e =>
    return .error (.ofSystem e)

/-- Access to the files of the machine. -/
def machineFiles : Files IO where
  isFile p := do
    if p.isEmpty then
      return false
    let place := (← IO.currentDir) / String.ofList p
    try
      return (← place.metadata).type matches .file
    catch _ =>
      return false
  read := readMachineFile

/-- All bytes of a stream, after those in `found`. -/
partial def readStream (stream : IO.FS.Stream) (found : ByteArray) : IO ByteArray := do
  let more ← stream.read 65536
  if more.isEmpty then
    return found
  readStream stream (found ++ more)

/-- The bytes of standard input. -/
def readInput : IO (Except FileError Bytes) := do
  try
    return .ok (← readStream (← IO.getStdin) .empty).toList
  catch e =>
    return .error (.ofSystem e)

/-- The environment of a program that runs on the machine. -/
def machineEnvironment : IO (Environment IO) := do
  return {
    files := machineFiles
    directory := (← IO.currentDir).toString.toList
    home := (← IO.getEnv "HOME").map String.toList
    input := readInput }

/-- Writes an outcome to the standard streams and gives its status. -/
def Outcome.emit (o : Outcome) : IO UInt32 := do
  let out ← IO.getStdout
  out.write o.output.toByteArray
  out.flush
  for warning in o.warnings do
    IO.eprintln (" WARN " ++ String.ofList warning)
  IO.eprint (String.ofList o.errors)
  return o.status.toUInt32

/-- What is said about a command line that is not carried out. -/
def UsageError.message : UsageError → String
  | .helpWanted =>
    "Usage: tq [--config PATH] [-v] (tokens | parse [--json] | check | filter [-c] [--invert] | "
      ++ "config) [QUERY] [FILES]"
  | .nothingGiven | .missingCommand => "error: a command is required"
  | .unknownCommand => "error: there is no such command"
  | .unknownArgument => "error: unexpected argument"
  | .missingQuery => "error: a query is required"
  | .missingValue => "error: a value is required"
  | .unwantedValue => "error: unexpected value"
  | .repeatedOption => "error: the option cannot be used multiple times"

end BoolQuery

open BoolQuery in
/-- Runs the program. -/
def main (arguments : List String) : IO UInt32 := do
  let fallback? := (← IO.getEnv "TQ_CONFIG").map String.toList
  match Invocation.ofArguments fallback? (arguments.map String.toList) with
  | .error .helpWanted => do
    IO.println UsageError.helpWanted.message
    return 0
  | .error e => do
    IO.eprintln e.message
    return 2
  | .ok invocation => do
    (← invocation.run (← machineEnvironment)).emit
