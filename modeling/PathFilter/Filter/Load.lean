import PathFilter.Filter.Basic
import PathFilter.PatternFile.Basic

/-!
Loading rules from pattern files and from sources of ignore patterns. A load that fails leaves the
filter as it was; a load that succeeds adds all its rules.
-/

set_option autoImplicit false
set_option relaxedAutoImplicit false

namespace PathFilter

/-- A source of the ignore patterns of repositories. Asking it may fail with some text, and may be
reported. -/
structure IgnoreSource where
  ignores : Text → Logged (Except Text (List Text))

namespace IgnoreSource

/-- A source that holds the patterns of each repository; an unknown one has none. -/
def ofTable (table : List (Text × List Text)) : IgnoreSource where
  ignores repository := pure (.ok ((table.lookup repository).getD []))

def failing (cause : Text) : IgnoreSource where
  ignores _ := pure (.error cause)

end IgnoreSource

namespace Filter

/-- Adds the patterns of a file to a role and tells how many there were. -/
def addFile (filter : Filter) (files : Files) (role : Role) (name : FileName)
    (options : MatchOptions) : Logged (Except FilterError (Filter × Nat)) :=
  match files.readText name with
  | .error failure => pure (.error (.unreadable name failure))
  | .ok text => do
    let patterns := PatternFile.patterns text
    let filter ← filter.addAll role patterns options
    Logged.emit (.patternFileLoaded name role patterns.length)
    pure (.ok (filter, patterns.length))

/-- Adds the ignore patterns of a repository and tells how many there were. -/
def loadIgnores (filter : Filter) (source : IgnoreSource) (repository : Text)
    (options : MatchOptions) : Logged (Except FilterError (Filter × Nat)) := do
  match ← source.ignores repository with
  | .error cause => pure (.error (.ignoreSource repository cause))
  | .ok patterns => do
    let filter ← filter.addAll .ignores patterns options
    Logged.emit (.ignoresLoaded repository patterns.length)
    pure (.ok (filter, patterns.length))

end Filter

end PathFilter
