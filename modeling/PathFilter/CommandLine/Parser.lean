import PathFilter.CommandLine.Argument
import PathFilter.CommandLine.Error
import PathFilter.CommandLine.Invocation

/-!
Reading a command line. A value that stands in an argument of its own is held back until the next
option, path or end, so that an unknown option right after it is reported first; a value that is
attached to its option counts at once.
-/

set_option autoImplicit false
set_option relaxedAutoImplicit false

namespace PathFilter.CommandLine

/-- An option whose value is awaited or held back. -/
structure Held where
  option : ValueOption
  value? : Option Bytes
  deriving DecidableEq, Repr

structure Reader where
  invocation : Invocation := {}
  held? : Option Held := none
  deriving DecidableEq, Repr

namespace Reader

/-- The option that awaits its value. -/
def awaited? (reader : Reader) : Option ValueOption :=
  match reader.held? with
  | some ⟨option, none⟩ => some option
  | _ => none

def store (invocation : Invocation) (option : ValueOption) (value : Bytes) :
    Except ArgumentError Invocation :=
  if invocation.isTaken option then .error (.repeated (.value option))
  else .ok (invocation.store value option)

/-- Stores the value held back; an awaited value is missing now. -/
def settle (reader : Reader) : Except ArgumentError Invocation :=
  match reader.held? with
  | none => .ok reader.invocation
  | some ⟨option, none⟩ => .error (.missingValue option)
  | some ⟨option, some value⟩ => store reader.invocation option value

/-- Holds an argument back as the value of an option. -/
def hold (reader : Reader) (option : ValueOption) (value : Bytes) : Reader :=
  { reader with held? := some ⟨option, some value⟩ }

def takeFlag (reader : Reader) : CommandOption → Except ArgumentError Reader
  | .switch switch => do
    let invocation ← reader.settle
    if invocation.isOn switch then throw (.repeated (.switch switch))
    return { invocation := invocation.turnOn switch }
  | .verbose => do
    let invocation ← reader.settle
    return { invocation := invocation.raiseVerbosity }
  | .value option => do
    let invocation ← reader.settle
    return { invocation := invocation, held? := some ⟨option, none⟩ }

def takeAttached (reader : Reader) (option : ValueOption) (value : Bytes) :
    Except ArgumentError Reader := do
  let invocation ← store (← reader.settle) option value
  return { invocation := invocation }

def takeLong (reader : Reader) (name : Bytes) (value? : Option Bytes) :
    Except ArgumentError Reader :=
  match (Utf8.decode? name).bind CommandOption.ofLong?, value? with
  | none, _ => .error (.unknown ("--".toList ++ Utf8.decodeLossy name))
  | some (.value option), some value => reader.takeAttached option value
  | some option, some value => .error (.unneededValue option (Utf8.decodeLossy value))
  | some option, none => reader.takeFlag option

/-- Drops an equals sign that stands before an attached value. -/
def dropEquals : Bytes → Bytes
  | [] => []
  | b :: rest => if b = Argument.equalsSign then rest else b :: rest

/-- Takes the letters of a cluster. The first one that takes a value has the rest of the cluster as
its value, or awaits one if there is no rest. -/
def takeCluster (reader : Reader) (tail : Bytes) : Text → Except ArgumentError Reader
  | [] =>
    if tail.isEmpty then .ok reader else .error (.unknown ('-' :: Utf8.decodeLossy tail))
  | letter :: rest =>
    match CommandOption.ofShort? letter with
    | none => .error (.unknown ['-', letter])
    | some (.value option) =>
      let value := Utf8.encode rest ++ tail
      if value.isEmpty then reader.takeFlag (.value option)
      else reader.takeAttached option (dropEquals value)
    | some option =>
      match reader.takeFlag option with
      | .error error => .error error
      | .ok reader => takeCluster reader tail rest

/-- Takes an argument that is not an option: an awaited value or a path. -/
def takePlain (reader : Reader) (argument : Bytes) : Except ArgumentError Reader :=
  match reader.awaited? with
  | some option => .ok (reader.hold option argument)
  | none => do
    let invocation ← reader.settle
    return { invocation := invocation.addPaths [argument] }

def takePaths (reader : Reader) (arguments : List Bytes) : Except ArgumentError Invocation := do
  let invocation ← reader.settle
  return invocation.addPaths arguments

def takeAll (reader : Reader) : List Bytes → Except ArgumentError Invocation
  | [] => reader.settle
  | argument :: rest =>
    match reader.awaited?.filter ValueOption.takesAnything with
    | some option => takeAll (reader.hold option argument) rest
    | none =>
      let next :=
        match Argument.read argument with
        | .terminator => none
        | .long name value? => some (reader.takeLong name value?)
        | .cluster letters tail => some (reader.takeCluster tail letters)
        | .plain => some (reader.takePlain argument)
      match next with
      | none => reader.takePaths rest
      | some (.error error) => .error error
      | some (.ok reader) => takeAll reader rest

end Reader

/-- A settings file and a repository need each other. -/
def checkCompanions (invocation : Invocation) : Except ArgumentError Invocation :=
  match invocation.settings, invocation.repository with
  | some _, none => .error (.missing .repository)
  | none, some _ => .error (.missing .settingsFile)
  | _, _ => .ok invocation

def parse (arguments : List Bytes) : Except ArgumentError Invocation := do
  checkCompanions (← Reader.takeAll {} (arguments.drop 1))

end PathFilter.CommandLine
