import PathFilter.Text.Utf8

/-!
Files as far as loading needs them: a name leads to bytes or to a cause of failure. Names are bytes,
and they are shown leniently decoded.
-/

set_option autoImplicit false
set_option relaxedAutoImplicit false

namespace PathFilter

/-- The name of a file, as the system sees it. -/
abbrev FileName := Bytes

def FileName.text (name : FileName) : Text := Utf8.decodeLossy name

inductive ReadFailure
  | notFound
  /-- A name leads through a regular file. -/
  | notFolder
  /-- The name is that of a folder. -/
  | isFolder
  /-- The bytes are not UTF-8. -/
  | notText
  /-- The name holds a NUL byte. -/
  | nulInName
  /-- The name, or one of its steps, has more bytes than the system allows. -/
  | nameTooLong
  /-- Any other failure that the system reports. -/
  | other (message : Text)
  deriving DecidableEq, Repr

/-- The system's wording of a failure. -/
def ReadFailure.message : ReadFailure → Text
  | .notFound => "No such file or directory (os error 2)".toList
  | .notFolder => "Not a directory (os error 20)".toList
  | .isFolder => "Is a directory (os error 21)".toList
  | .notText => "stream did not contain valid UTF-8".toList
  | .nulInName => "file name contained an unexpected NUL byte".toList
  | .nameTooLong => "File name too long (os error 36)".toList
  | .other message => message

/-- What reading each name gives. -/
structure Files where
  read : FileName → Except ReadFailure Bytes

namespace Files

/-- Files of which some have been read beforehand; there are no others. -/
def ofReadings (readings : List (FileName × Except ReadFailure Bytes)) : Files where
  read name := (readings.lookup name).getD (.error .notFound)

/-- Bytes as text, which fails as a whole if any part is not UTF-8. -/
def asText (bytes : Bytes) : Except ReadFailure Text :=
  match Utf8.decode? bytes with
  | some text => .ok text
  | none => .error .notText

def readText (files : Files) (name : FileName) : Except ReadFailure Text :=
  match files.read name with
  | .ok bytes => asText bytes
  | .error failure => .error failure

end Files

end PathFilter
