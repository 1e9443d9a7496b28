import PathFilter.Text.Basic

/-!
Settings by repository. Entries outside every section are shared; a repository that sets a key
itself sees its own values of it and none of the shared ones.
-/

set_option autoImplicit false
set_option relaxedAutoImplicit false

namespace PathFilter

/-- A key and a value; the key is in lower case. -/
structure Entry where
  key : Text
  value : Text
  deriving DecidableEq, Repr

structure Section where
  name : Text
  entries : List Entry := []
  deriving DecidableEq, Repr

structure Settings where
  shared : List Entry := []
  sections : List Section := []
  deriving DecidableEq, Repr

namespace Settings

def ignoresKey : Text := "ignores".toList

def valuesIn (entries : List Entry) (key : Text) : List Text :=
  (entries.filter fun entry => entry.key = key).map Entry.value

def repositories (settings : Settings) : List Text := settings.sections.map Section.name

def section? (settings : Settings) (repository : Text) : Option Section :=
  settings.sections.find? fun part => part.name = repository

def hasRepository (settings : Settings) (repository : Text) : Bool :=
  (settings.section? repository).isSome

/-- The shared values of a key, whatever the case of its letters. -/
def sharedValues (settings : Settings) (key : Text) : List Text :=
  valuesIn settings.shared (Text.lowerAscii key)

def ownValues (settings : Settings) (repository key : Text) : List Text :=
  match settings.section? repository with
  | none => []
  | some part => valuesIn part.entries (Text.lowerAscii key)

/-- The values of a key for a repository: its own ones if there are any, else the shared ones. -/
def values (settings : Settings) (repository key : Text) : List Text :=
  let own := settings.ownValues repository key
  if own.isEmpty then settings.sharedValues key else own

/-- The ignore patterns of a repository, without empty ones. -/
def ignores (settings : Settings) (repository : Text) : List Text :=
  (settings.values repository ignoresKey).filter fun value => !value.isEmpty

end Settings

end PathFilter
