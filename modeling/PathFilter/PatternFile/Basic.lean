import PathFilter.Text.Blank

/-!
Pattern files. A file holds one pattern a line; blanks at both ends of a line do not count, and
neither do empty lines and lines that begin with `#` or `;`.
-/

set_option autoImplicit false
set_option relaxedAutoImplicit false

namespace PathFilter.PatternFile

def isLineEnd (c : Char) : Bool := c == '\r' || c == '\n'

def patterns (text : Text) : List Text :=
  ((Text.cut isLineEnd text).map Text.trim).filter fun line => !Text.isComment line

end PathFilter.PatternFile
