import PathFilter.CommandLine.Options
import PathFilter.Glob.Options
import PathFilter.Role

set_option autoImplicit false
set_option relaxedAutoImplicit false

namespace PathFilter.CommandLine

/-- What a command line asks for. -/
structure Invocation where
  help : Bool := false
  version : Bool := false
  /-- How often `--verbose` is given, at most 255. -/
  verbosity : Nat := 0
  includes : List Text := []
  excludes : List Text := []
  ignores : List Text := []
  includeFiles : List FileName := []
  excludeFiles : List FileName := []
  ignoreFiles : List FileName := []
  settings : Option FileName := none
  repository : Option Text := none
  /-- The options of every pattern. -/
  options : MatchOptions := {}
  disabled : DisabledRoles := {}
  acceptedOnly : Bool := false
  json : Bool := false
  paths : List Text := []
  deriving DecidableEq, Repr

namespace Invocation

def isOn (invocation : Invocation) : Switch → Bool
  | .help => invocation.help
  | .version => invocation.version
  | .anywhere => invocation.options.anywhere
  | .recursive => invocation.options.belowFolders
  | .trailingSlash => invocation.options.trailingSeparator
  | .repoRoot => invocation.options.repoRoot
  | .noIncludes => invocation.disabled.includes
  | .noExcludes => invocation.disabled.excludes
  | .noIgnores => invocation.disabled.ignores
  | .acceptedOnly => invocation.acceptedOnly
  | .json => invocation.json

def turnOn (invocation : Invocation) : Switch → Invocation
  | .help => { invocation with help := true }
  | .version => { invocation with version := true }
  | .anywhere => { invocation with options := { invocation.options with anywhere := true } }
  | .recursive => { invocation with options := { invocation.options with belowFolders := true } }
  | .trailingSlash =>
    { invocation with options := { invocation.options with trailingSeparator := true } }
  | .repoRoot => { invocation with options := { invocation.options with repoRoot := true } }
  | .noIncludes => { invocation with disabled := { invocation.disabled with includes := true } }
  | .noExcludes => { invocation with disabled := { invocation.disabled with excludes := true } }
  | .noIgnores => { invocation with disabled := { invocation.disabled with ignores := true } }
  | .acceptedOnly => { invocation with acceptedOnly := true }
  | .json => { invocation with json := true }

def raiseVerbosity (invocation : Invocation) : Invocation :=
  { invocation with verbosity := min 255 (invocation.verbosity + 1) }

/-- An option that is given once at most has its value. -/
def isTaken (invocation : Invocation) : ValueOption → Bool
  | .settingsFile => invocation.settings.isSome
  | .repository => invocation.repository.isSome
  | _ => false

/-- Takes the value of an option. Names of files stay bytes; every other value is text. -/
def store (invocation : Invocation) (value : Bytes) : ValueOption → Invocation
  | .includePattern =>
    { invocation with includes := invocation.includes ++ [Utf8.decodeLossy value] }
  | .excludePattern =>
    { invocation with excludes := invocation.excludes ++ [Utf8.decodeLossy value] }
  | .ignorePattern =>
    { invocation with ignores := invocation.ignores ++ [Utf8.decodeLossy value] }
  | .includeFile => { invocation with includeFiles := invocation.includeFiles ++ [value] }
  | .excludeFile => { invocation with excludeFiles := invocation.excludeFiles ++ [value] }
  | .ignoreFile => { invocation with ignoreFiles := invocation.ignoreFiles ++ [value] }
  | .settingsFile => { invocation with settings := some value }
  | .repository => { invocation with repository := some (Utf8.decodeLossy value) }

def addPaths (invocation : Invocation) (paths : List Bytes) : Invocation :=
  { invocation with paths := invocation.paths ++ paths.map Utf8.decodeLossy }

def fileNames (invocation : Invocation) : List FileName :=
  invocation.includeFiles ++ invocation.excludeFiles ++ invocation.ignoreFiles ++
    invocation.settings.toList

def readsInput (invocation : Invocation) : Bool :=
  !invocation.help && !invocation.version && invocation.paths.isEmpty

@[simp] theorem isOn_turnOn (invocation : Invocation) (switch other : Switch) :
    (invocation.turnOn switch).isOn other = (decide (switch = other) || invocation.isOn other) := by
  cases switch <;> cases other <;> simp [isOn, turnOn]

end Invocation

end PathFilter.CommandLine
