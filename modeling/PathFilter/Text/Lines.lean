import PathFilter.Text.Basic

/-!
The lines of a text. A line ends at a line feed, and a carriage return right before that line feed
belongs to the end; a carriage return anywhere else is an ordinary character. A last line without an
end counts only if it is not empty.
-/

set_option autoImplicit false
set_option relaxedAutoImplicit false

namespace PathFilter.Text

/-- An ended line without the carriage return before its line feed. -/
def dropReturn (line : Text) : Text :=
  if line.getLast? = some '\r' then line.dropLast else line

/-- The lines of the pieces between line feeds: every piece but the last was ended. -/
def linesOfPieces : List Text → List Text
  | [] => []
  | [last] => if last.isEmpty then [] else [last]
  | line :: next :: rest => dropReturn line :: linesOfPieces (next :: rest)

def lines (text : Text) : List Text := linesOfPieces (cut (· == '\n') text)

example : lines "a\r\nb\rc\n\nd\r".toList =
    ["a".toList, "b\rc".toList, [], "d\r".toList] := by decide +kernel

end PathFilter.Text
