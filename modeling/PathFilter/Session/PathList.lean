import PathFilter.Files.Basic
import PathFilter.Text.Lines

/-!
Lists of paths in bytes, one path a line. A carriage return before a line feed belongs to the end of
the line; further carriage returns at the end of a line do not count either, and empty lines are
skipped. All other characters belong to the path.
-/

set_option autoImplicit false
set_option relaxedAutoImplicit false

namespace PathFilter.PathList

def lineFeed : UInt8 := 0x0A

/-- A line without the carriage returns at its end. -/
def dropReturns (line : Text) : Text := Text.dropEndWhile (· == '\r') line

/-- The pieces of a byte sequence between line feeds, each read as text on its own. -/
def readPieces (bytes : Bytes) : Except ReadFailure (List Text) :=
  (Text.cut (· == lineFeed) bytes).mapM Files.asText

def readLines (bytes : Bytes) : Except ReadFailure (List Text) :=
  (readPieces bytes).map Text.linesOfPieces

def read (bytes : Bytes) : Except ReadFailure (List Text) :=
  match readLines bytes with
  | .error failure => .error failure
  | .ok lines => .ok ((lines.map dropReturns).filter fun path => !path.isEmpty)

/-- A path can stand on a line of its own. -/
structure Listable (path : Text) : Prop where
  ne_nil : path ≠ []
  oneLine : '\n' ∉ path
  noReturn : path.getLast? ≠ some '\r'

/-- A line end, with or without a carriage return. -/
inductive LineEnd : Text → Prop
  | feed : LineEnd ['\n']
  | both : LineEnd ['\r', '\n']

/-- A text lists paths: one a line, with empty lines anywhere, the end of the last line being
optional. -/
inductive Lists : List Text → Text → Prop
  | nil : Lists [] []
  | empty {paths : List Text} {ending text : Text} :
      LineEnd ending → Lists paths text → Lists paths (ending ++ text)
  | path {path ending text : Text} {paths : List Text} :
      Listable path → LineEnd ending → Lists paths text →
      Lists (path :: paths) (path ++ ending ++ text)
  | last {path : Text} : Listable path → Lists [path] path

end PathFilter.PathList
