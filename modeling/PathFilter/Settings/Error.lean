import PathFilter.Files.Basic

set_option autoImplicit false
set_option relaxedAutoImplicit false

namespace PathFilter

inductive LineFault
  /-- A header without a closing bracket. -/
  | openHeader
  | emptyName
  /-- A header whose name an earlier line has. -/
  | repeatedName (name : Text) (line : Nat)
  /-- Something other than a comment after a header. -/
  | afterHeader
  /-- An entry without an equals sign. -/
  | noEquals
  | emptyKey
  deriving DecidableEq, Repr

def LineFault.message : LineFault → Text
  | .openHeader => "unterminated section header".toList
  | .emptyName => "section name must be non-empty".toList
  | .repeatedName name line =>
    "duplicate section '".toList ++ name ++ "' (previously defined at line ".toList ++
      Text.decimal line ++ [')']
  | .afterHeader => "unexpected content after section header".toList
  | .noEquals => "expected 'key = value' format".toList
  | .emptyKey => "setting name must be non-empty".toList

inductive SettingsError
  | unreadable (file : FileName) (failure : ReadFailure)
  /-- A line is wrong; lines are counted from one. -/
  | malformed (file? : Option FileName) (line : Nat) (fault : LineFault)
  deriving DecidableEq, Repr

namespace SettingsError

def message : SettingsError → Text
  | .unreadable file failure =>
    "failed to read '".toList ++ file.text ++ "': ".toList ++ failure.message
  | .malformed _ _ fault => fault.message

def line? : SettingsError → Option Nat
  | .unreadable .. => none
  | .malformed _ line _ => some line

/-- The file of an error, as text. -/
def file? : SettingsError → Option Text
  | .unreadable file _ => some file.text
  | .malformed file? _ _ => file?.map FileName.text

def source? : SettingsError → Option Text
  | .unreadable _ failure => some failure.message
  | .malformed .. => none

/-- The wording of an error: a wrong line is named with its file, and a file that cannot be read is
already named in the message. -/
def describe : SettingsError → Text
  | .unreadable file failure => message (.unreadable file failure)
  | .malformed file? line fault =>
    (match file? with
      | none => []
      | some file => file.text ++ ": ".toList) ++
      "line ".toList ++ Text.decimal line ++ ": ".toList ++ fault.message

end SettingsError

end PathFilter
