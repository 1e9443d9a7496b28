import PathFilter.Session.Basic

/-!
The command-line program. It reads the files that the command line names and, where paths are to
come from there, the standard input; what follows from them is computed by `Session.run`.

Events go to the standard error stream as far as the verbosity asks for them. The environment
variable `VCFILTER_LOG`, a filter of events that would stand in for the verbosity, is not read, and
lines of events carry no time.
-/

set_option autoImplicit false
set_option relaxedAutoImplicit false

namespace PathFilter.Program

/-- The number of a system error. Some calls report it negated. -/
def errorNumber (code : UInt32) : UInt32 := min code (0 - code)

def readFailure (error : IO.Error) : ReadFailure :=
  let unknown : ReadFailure := .other error.toString.toList
  match error with
  | .noFileOrDirectory .. => .notFound
  | .inappropriateType _ code _ =>
    if errorNumber code = 20 then .notFolder
    else if errorNumber code = 21 then .isFolder
    else unknown
  | .invalidArgument _ code _ => if errorNumber code = 36 then .nameTooLong else unknown
  | _ => unknown

def readFile (name : FileName) : IO (Except ReadFailure Bytes) := do
  if name.contains 0 then return .error .nulInName
  try
    let content ← IO.FS.readBinFile (String.ofList name.text)
    return .ok content.toList
  catch error => return .error (readFailure error)

partial def readAll (stream : IO.FS.Stream) (start : ByteArray) : IO ByteArray := do
  let chunk ← stream.read 65536
  if chunk.isEmpty then return start else readAll stream (start ++ chunk)

def collect (arguments : List Bytes) : IO Session := do
  match CommandLine.parse arguments with
  | .error _ => return { arguments, files := .ofReadings [] }
  | .ok invocation =>
    let readings ← invocation.fileNames.mapM fun name => return (name, ← readFile name)
    let input ← if invocation.readsInput then readAll (← IO.getStdin) .empty else pure .empty
    return { arguments, files := .ofReadings readings, input := input.toList }

def verbosity (arguments : List Bytes) : Nat :=
  match CommandLine.parse arguments with
  | .error _ => 0
  | .ok invocation => invocation.verbosity

end PathFilter.Program

open PathFilter in
/-- Runs the program and returns its exit code. -/
def main (arguments : List String) : IO UInt32 := do
  let arguments := (("vcfilter" : String) :: arguments).map fun argument =>
    Utf8.encode argument.toList
  let session ← Program.collect arguments
  let outcome := session.run
  let stderr ← IO.getStderr
  let verbosity := Program.verbosity arguments
  for event in outcome.events do
    if event.level.verbosity ≤ verbosity then
      stderr.putStrLn (String.ofList event.line)
  let stdout ← IO.getStdout
  stdout.write ⟨outcome.value.output.toArray⟩
  stdout.flush
  stderr.putStr (String.ofList outcome.value.diagnostic)
  return UInt32.ofNat (exitCode outcome.value.code)
