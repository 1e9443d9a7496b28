import PathFilter.CommandLine.Invocation
import PathFilter.Session.Error
import PathFilter.Settings.Source

/-!
The filter that a command line asks for. For each role the patterns of the command line come first,
then those of its files; the ignore patterns of the settings come last. Every pattern has the
options of the command line.
-/

set_option autoImplicit false
set_option relaxedAutoImplicit false

namespace PathFilter

/-- A computation that may fail and that keeps the events up to the failure. -/
abbrev Attempt (α : Type) := ExceptT RunError Logged α

namespace Attempt

/-- A computation that does not fail. -/
def ofLogged {α : Type} (result : Logged α) : Attempt α := ExceptT.lift result

def ofResult {ε α : Type} (wrap : ε → RunError) (result : Logged (Except ε α)) : Attempt α :=
  ExceptT.mk do
    match ← result with
    | .ok value => pure (.ok value)
    | .error error => pure (.error (wrap error))

end Attempt

namespace CommandLine.Invocation

def addFiles (files : Files) (role : Role) (options : MatchOptions) (filter : Filter)
    (names : List FileName) : Attempt Filter :=
  names.foldlM (fun filter name => do
    let added ← Attempt.ofResult RunError.filter (filter.addFile files role name options)
    pure added.1) filter

def addRole (files : Files) (role : Role) (options : MatchOptions) (patterns : List Text)
    (names : List FileName) (filter : Filter) : Attempt Filter := do
  let filter ← Attempt.ofLogged (filter.addAll role patterns options)
  addFiles files role options filter names

/-- Adds the ignore patterns of the settings, if a settings file and a repository are given. -/
def addSettings (invocation : Invocation) (files : Files) (filter : Filter) : Attempt Filter := do
  match invocation.settings, invocation.repository with
  | some name, some repository =>
    let settings ← Attempt.ofResult RunError.settings (Settings.ofFile files name)
    let added ← Attempt.ofResult RunError.filter
      (filter.loadIgnores settings.source repository invocation.options)
    pure added.1
  | _, _ => pure filter

def buildFilter (invocation : Invocation) (files : Files) : Attempt Filter := do
  let options := invocation.options
  let filter ← addRole files .includes options invocation.includes invocation.includeFiles .blank
  let filter ← addRole files .excludes options invocation.excludes invocation.excludeFiles filter
  let filter ← addRole files .ignores options invocation.ignores invocation.ignoreFiles filter
  let filter ← invocation.addSettings files filter
  let filter := filter.setDisabled invocation.disabled
  Attempt.ofLogged <| Logged.emit <|
    .filterReady (filter.count (.single .includes)) (filter.count (.single .excludes))
      (filter.count (.single .ignores)) filter.disabled
  pure filter

end CommandLine.Invocation

end PathFilter
