import PathFilter.Text.Basic

/-!
The characters with the Unicode property White_Space, and trimming by it. Both pattern files and
settings files trim their lines this way, and both mark comments alike.
-/

set_option autoImplicit false
set_option relaxedAutoImplicit false

namespace PathFilter.Text

/-- The code points of White_Space, as inclusive ranges in ascending order. -/
def blankRanges : List (Nat × Nat) :=
  [(0x9, 0xD), (0x20, 0x20), (0x85, 0x85), (0xA0, 0xA0), (0x1680, 0x1680), (0x2000, 0x200A),
    (0x2028, 0x2029), (0x202F, 0x202F), (0x205F, 0x205F), (0x3000, 0x3000)]

def isBlank (c : Char) : Bool :=
  blankRanges.any fun range => range.1 ≤ c.toNat && c.toNat ≤ range.2

def trimStart (text : Text) : Text := text.dropWhile isBlank

def trimEnd (text : Text) : Text := dropEndWhile isBlank text

def trim (text : Text) : Text := trimEnd (trimStart text)

/-- A trimmed line that says nothing: it is empty or begins with `#` or `;`. -/
def isComment : Text → Bool
  | [] => true
  | c :: _ => c == '#' || c == ';'

/-- The table has 25 characters. -/
example : (blankRanges.map fun range => range.2 + 1 - range.1).sum = 25 := by decide

end PathFilter.Text
