import PathFilter.Settings.Basic
import PathFilter.Settings.Error
import PathFilter.Text.Blank
import PathFilter.Text.Lines

/-!
Reading settings. A line is read on its own first: it is skipped, or a section header, or an entry.
The lines are then taken in order, and the first wrong one ends the reading.
-/

set_option autoImplicit false
set_option relaxedAutoImplicit false

namespace PathFilter

/-- A line that says something, or nothing. -/
inductive SettingsLine
  | skipped
  /-- A header with the trimmed name and the trimmed rest of its line. -/
  | header (name rest : Text)
  | entry (entry : Entry)
  deriving DecidableEq, Repr

namespace SettingsLine

def readHeader (text : Text) : Except LineFault SettingsLine :=
  match Text.splitFirst? ']' text with
  | none => .error .openHeader
  | some (name, rest) =>
    if (Text.trim name).isEmpty then .error .emptyName
    else .ok (.header (Text.trim name) (Text.trim rest))

/-- Reads a trimmed line that is neither a comment nor a header. -/
def readEntry (text : Text) : Except LineFault SettingsLine :=
  match Text.splitFirst? '=' text with
  | none => .error .noEquals
  | some (key, value) =>
    if (Text.trim key).isEmpty then .error .emptyKey
    else .ok (.entry ⟨Text.lowerAscii (Text.trim key), Text.trim value⟩)

def read (line : Text) : Except LineFault SettingsLine :=
  match Text.trim line with
  | [] => .ok .skipped
  | '[' :: rest => readHeader rest
  | c :: rest => if Text.isComment (c :: rest) then .ok .skipped else readEntry (c :: rest)

end SettingsLine

/-- The settings so far, and the headers so far with the numbers of their lines. -/
structure SettingsReader where
  settings : Settings := {}
  headers : List (Text × Nat) := []

namespace SettingsReader

def addToLast (entry : Entry) : List Section → List Section
  | [] => []
  | [last] => [{ last with entries := last.entries ++ [entry] }]
  | part :: next :: rest => part :: addToLast entry (next :: rest)

/-- Adds an entry to the section being read, or to the shared entries before the first header. -/
def addEntry (entry : Entry) (settings : Settings) : Settings :=
  if settings.sections.isEmpty then { settings with shared := settings.shared ++ [entry] }
  else { settings with sections := addToLast entry settings.sections }

def take (reader : SettingsReader) (number : Nat) : SettingsLine → Except LineFault SettingsReader
  | .skipped => .ok reader
  | .header name rest =>
    match reader.headers.lookup name with
    | some line => .error (.repeatedName name line)
    | none =>
      if Text.isComment rest then
        .ok {
          settings := { reader.settings with sections := reader.settings.sections ++ [⟨name, []⟩] }
          headers := reader.headers ++ [(name, number)] }
      else .error .afterHeader
  | .entry entry => .ok { reader with settings := addEntry entry reader.settings }

/-- Takes lines in order, the first of which has a given number; a wrong line is told with its
number. -/
def takeAll (reader : SettingsReader) (number : Nat) :
    List Text → Except (Nat × LineFault) SettingsReader
  | [] => .ok reader
  | line :: rest =>
    match (SettingsLine.read line).bind (take reader number) with
    | .error fault => .error (number, fault)
    | .ok reader => takeAll reader (number + 1) rest

end SettingsReader

namespace Settings

/-- The settings that a text holds. The file is named in errors only. -/
def parse (text : Text) (file? : Option FileName) : Except SettingsError Settings :=
  match SettingsReader.takeAll {} 1 (Text.lines text) with
  | .error (line, fault) => .error (.malformed file? line fault)
  | .ok reader => .ok reader.settings

end Settings

end PathFilter
