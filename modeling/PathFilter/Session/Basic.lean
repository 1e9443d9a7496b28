import PathFilter.CommandLine.Help
import PathFilter.CommandLine.Parser
import PathFilter.Filter.Decision
import PathFilter.Session.Build
import PathFilter.Session.PathList
import PathFilter.Session.Record
import PathFilter.Session.Sink

/-!
A whole run: the command line is read, the filter is built, the paths are collected, and one record
is written for each of them. Nothing is written before every input has been read.
-/

set_option autoImplicit false
set_option relaxedAutoImplicit false

namespace PathFilter

structure Session where
  arguments : List Bytes
  files : Files
  input : Bytes := []
  /-- How many bytes the output accepts; without a number, any. -/
  room? : Option Nat := none

structure Outcome where
  code : Nat
  output : Bytes
  diagnostic : Text
  deriving DecidableEq, Repr

namespace Session

/-- The result of a part of a run that writes: the output so far, and a value or a failure. -/
abbrev Written (α : Type) := Sink × Except RunError α

def writePieces (sink : Sink) (pieces : List Text) (refused : Text → RunError) : Written Unit :=
  match sink.writeEach (pieces.map Utf8.encode) with
  | (sink, true) => (sink, .ok ())
  | (sink, false) => (sink, .error (refused Sink.fullMessage))

/-- Writes a record. A JSON object and its line end fail apart. -/
def writeRecord (sink : Sink) (record : Record) (form : RecordForm) : Written Unit :=
  match form with
  | .json =>
    match writePieces sink [Json.writeObject record.members] .record with
    | (sink, .error error) => (sink, .error error)
    | (sink, .ok ()) => writePieces sink [['\n']] .output
  | .bare | .labelled => writePieces sink (record.pieces form) .output

def isPrinted (invocation : CommandLine.Invocation) (verdict : Verdict) : Bool :=
  !invocation.acceptedOnly || verdict.accepted

/-- Classifies paths in order and writes their records; every verdict is counted, printed or not. -/
def classifyPaths (invocation : CommandLine.Invocation) (filter : Filter) :
    Sink → Tally → List Text → Logged (Written Tally)
  | sink, tally, [] => pure (sink, .ok tally)
  | sink, tally, path :: rest => do
    let verdict ← filter.classify path .none
    let tally := tally.record verdict
    if isPrinted invocation verdict then
      match writeRecord sink ⟨path, verdict⟩ (.ofInvocation invocation) with
      | (sink, .error error) => pure (sink, .error error)
      | (sink, .ok ()) => classifyPaths invocation filter sink tally rest
    else classifyPaths invocation filter sink tally rest

/-- The paths of a run: those of the command line, or those of the input if there are none. -/
def collectPaths (session : Session) (invocation : CommandLine.Invocation) :
    Except RunError (List Text) :=
  if invocation.paths.isEmpty then
    match PathList.read session.input with
    | .ok paths => .ok paths
    | .error failure => .error (.input failure)
  else .ok invocation.paths

def prepare (session : Session) (invocation : CommandLine.Invocation) :
    Attempt (Filter × List Text) := do
  let filter ← invocation.buildFilter session.files
  let paths ← ExceptT.mk (pure (session.collectPaths invocation))
  pure (filter, paths)

/-- Classifies all paths of a run; the tally is reported once every record is written. -/
def classifyBatch (session : Session) (invocation : CommandLine.Invocation) (sink : Sink) :
    Logged (Written Unit) := do
  match ← (session.prepare invocation).run with
  | .error error => pure (sink, .error error)
  | .ok (filter, paths) =>
    match ← classifyPaths invocation filter sink .empty paths with
    | (sink, .error error) => pure (sink, .error error)
    | (sink, .ok tally) => do
      Logged.emit (.batchClassified tally)
      pure (sink, .ok ())

def perform (session : Session) (invocation : CommandLine.Invocation) (sink : Sink) :
    Logged (Written Unit) :=
  if invocation.help then pure (writePieces sink [CommandLine.helpText] .output)
  else if invocation.version then
    pure (writePieces sink [CommandLine.versionText, ['\n']] .output)
  else session.classifyBatch invocation sink

def run (session : Session) : Logged Outcome := do
  let sink : Sink := { room? := session.room? }
  let (sink, result) ←
    match CommandLine.parse session.arguments with
    | .error error => pure (sink, .error (.arguments error))
    | .ok invocation => session.perform invocation sink
  match result with
  | .ok () => pure ⟨0, sink.accepted, []⟩
  | .error error => do
    Logged.emit .runFailed
    pure ⟨1, sink.accepted, error.diagnostic⟩

end Session

/-- The exit code that a process gives for a status: the nearest number of a byte. -/
def exitCode (status : Int) : Nat := (min status 255).toNat

end PathFilter
