import PathFilter.Files.Basic

/-!
The options of the command line and how they are written. A switch takes no value and is given at
most once; `--verbose` takes none and is counted; every other option takes a value.
-/

set_option autoImplicit false
set_option relaxedAutoImplicit false

namespace PathFilter.CommandLine

inductive Switch
  | help
  | version
  | anywhere
  | recursive
  | trailingSlash
  | repoRoot
  | noIncludes
  | noExcludes
  | noIgnores
  | acceptedOnly
  | json
  deriving DecidableEq, Repr

namespace Switch

def all : List Switch :=
  [.help, .version, .anywhere, .recursive, .trailingSlash, .repoRoot, .noIncludes, .noExcludes,
    .noIgnores, .acceptedOnly, .json]

def long : Switch → String
  | .help => "help"
  | .version => "version"
  | .anywhere => "anywhere"
  | .recursive => "recursive"
  | .trailingSlash => "trailing-slash"
  | .repoRoot => "repo-root"
  | .noIncludes => "no-includes"
  | .noExcludes => "no-excludes"
  | .noIgnores => "no-ignores"
  | .acceptedOnly => "accepted-only"
  | .json => "json"

def short? : Switch → Option Char
  | .help => some 'h'
  | .version => some 'V'
  | _ => none

end Switch

inductive ValueOption
  | includePattern
  | excludePattern
  | ignorePattern
  | includeFile
  | excludeFile
  | ignoreFile
  | settingsFile
  | repository
  deriving DecidableEq, Repr

namespace ValueOption

def all : List ValueOption :=
  [.includePattern, .excludePattern, .ignorePattern, .includeFile, .excludeFile, .ignoreFile,
    .settingsFile, .repository]

def long : ValueOption → String
  | .includePattern => "include"
  | .excludePattern => "exclude"
  | .ignorePattern => "ignore"
  | .includeFile => "include-from"
  | .excludeFile => "exclude-from"
  | .ignoreFile => "ignore-from"
  | .settingsFile => "settings"
  | .repository => "repo"

def short? : ValueOption → Option Char
  | .includePattern => some 'i'
  | .excludePattern => some 'x'
  | _ => none

def placeholder : ValueOption → String
  | .includePattern | .excludePattern | .ignorePattern => "PATTERN"
  | .includeFile | .excludeFile | .ignoreFile | .settingsFile => "FILE"
  | .repository => "NAME"

/-- Whatever argument follows is the value, even one that looks like an option. Patterns may begin
with a hyphen, names may not. -/
def takesAnything : ValueOption → Bool
  | .includePattern | .excludePattern | .ignorePattern => true
  | .includeFile | .excludeFile | .ignoreFile | .settingsFile | .repository => false

def describe (option : ValueOption) : Text :=
  "--".toList ++ option.long.toList ++ " <".toList ++ option.placeholder.toList ++ ['>']

end ValueOption

inductive CommandOption
  | switch (name : Switch)
  | verbose
  | value (option : ValueOption)
  deriving DecidableEq, Repr

namespace CommandOption

def all : List CommandOption :=
  Switch.all.map switch ++ verbose :: ValueOption.all.map value

def long : CommandOption → String
  | .switch name => name.long
  | .verbose => "verbose"
  | .value option => option.long

def short? : CommandOption → Option Char
  | .switch name => name.short?
  | .verbose => some 'v'
  | .value option => option.short?

/-- The option of a long name; the name must be complete. -/
def ofLong? (name : Text) : Option CommandOption :=
  all.find? fun option => option.long.toList = name

/-- The option of a letter. -/
def ofShort? (letter : Char) : Option CommandOption :=
  all.find? fun option => option.short? = some letter

def describe : CommandOption → Text
  | .switch name => "--".toList ++ name.long.toList
  | .verbose => "--verbose...".toList
  | .value option => option.describe

end CommandOption

end PathFilter.CommandLine
