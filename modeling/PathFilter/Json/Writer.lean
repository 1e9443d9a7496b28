import PathFilter.Text.Basic

/-!
Compact JSON for flat objects: members in the order given, no white space. A string escapes the
quote, the backslash and the control characters below a space, by a letter where there is one; every
other character stands for itself.
-/

set_option autoImplicit false
set_option relaxedAutoImplicit false

namespace PathFilter.Json

inductive Value
  | text (text : Text)
  | flag (flag : Bool)
  deriving DecidableEq, Repr

def hexDigit (n : Nat) : Char := if n < 10 then Char.ofNat (0x30 + n) else Char.ofNat (0x57 + n)

/-- The letter that stands for a character after a backslash, if it has one. -/
def escapeLetter? (c : Char) : Option Char :=
  if c == '"' then some '"'
  else if c == '\\' then some '\\'
  else if c == '\x08' then some 'b'
  else if c == '\t' then some 't'
  else if c == '\n' then some 'n'
  else if c == '\x0c' then some 'f'
  else if c == '\r' then some 'r'
  else none

def writeChar (c : Char) : Text :=
  match escapeLetter? c with
  | some letter => ['\\', letter]
  | none =>
    if c.toNat < 0x20 then ['\\', 'u', '0', '0', hexDigit (c.toNat / 16), hexDigit (c.toNat % 16)]
    else [c]

def writeString (text : Text) : Text := '"' :: text.flatMap writeChar ++ ['"']

def writeValue : Value → Text
  | .text text => writeString text
  | .flag true => "true".toList
  | .flag false => "false".toList

def writeMember (member : Text × Value) : Text :=
  writeString member.1 ++ ':' :: writeValue member.2

/-- Members with commas between them. -/
def writeMembers : List (Text × Value) → Text
  | [] => []
  | [member] => writeMember member
  | member :: next :: rest => writeMember member ++ ',' :: writeMembers (next :: rest)

def writeObject (members : List (Text × Value)) : Text := '\x7b' :: writeMembers members ++ ['\x7d']

end PathFilter.Json
