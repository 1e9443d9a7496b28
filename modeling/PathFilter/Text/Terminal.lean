import PathFilter.Text.Utf8

/-!
The part of a text that a terminal prints. Control characters other than white space are left out,
and so are escape sequences: an escape and its final character, control sequences, and the strings
of operating system commands, of device controls and of private messages.

A sequence is made of ASCII; other characters inside it are passed over. The exception is the byte
that ends a string: it counts wherever it stands, also as a later byte of a character.
-/

set_option autoImplicit false
set_option relaxedAutoImplicit false

namespace PathFilter.Text.Terminal

/-- What a character belongs to. -/
inductive Mode
  | plain
  /-- Right after an escape character. -/
  | escape
  /-- In an escape sequence with intermediate characters. -/
  | intermediate
  /-- In a control sequence. -/
  | control
  /-- In the string of an operating system command. -/
  | command
  /-- Right after the start of a device control. -/
  | device
  /-- Among the parameters of a device control. -/
  | deviceParameters
  /-- Among the intermediate characters of a device control. -/
  | deviceIntermediate
  /-- In the string of a device control or a private message. -/
  | message
  deriving DecidableEq, Repr

def isSpacing (c : Char) : Bool := c == '\t' || c == '\n' || c == '\x0c' || c == '\r'

/-- A character that is printed where no sequence is open. -/
def isPrinted (c : Char) : Bool := isSpacing c || (0x20 ≤ c.toNat && c.toNat != 0x7F)

def isWithin (least greatest : Nat) (c : Char) : Bool := least ≤ c.toNat && c.toNat ≤ greatest

/-- The byte that ends a string is among those of the character. -/
def endsString (c : Char) : Bool := (Utf8.encodeChar c).contains 0x9C

/-- The mode after a character that follows an escape. -/
def afterEscape (c : Char) : Mode :=
  if c == '[' then .control
  else if c == ']' then .command
  else if c == 'P' then .device
  else if c == 'X' || c == '^' || c == '_' then .message
  else if isWithin 0x20 0x2F c then .intermediate
  else if isWithin 0x30 0x7E c then .plain
  else .escape

/-- The mode after a character in the head of a device control, which its final character ends. A
private mark after a parameter, or a parameter after an intermediate character, spoils the head and
the string begins at once. -/
def afterDevice (mode : Mode) (c : Char) : Mode :=
  if isWithin 0x40 0x7E c then .message
  else if isWithin 0x20 0x2F c then .deviceIntermediate
  else if isWithin 0x30 0x3B c then
    if mode = .deviceIntermediate then .message else .deviceParameters
  else if isWithin 0x3C 0x3F c then
    if mode = .device then .deviceParameters else .message
  else mode

/-- The mode after a character, and whether the character is printed. Cancel and substitute end
every sequence, and an escape begins a new one. White space ends a sequence that holds no string. -/
def step (mode : Mode) (c : Char) : Mode × Bool :=
  if c == '\x1b' then (.escape, false)
  else if c == '\x18' || c == '\x1a' then (.plain, false)
  else
    match mode with
    | .plain => (.plain, isPrinted c)
    | .escape => if isSpacing c then (.plain, true) else (afterEscape c, false)
    | .intermediate =>
      if isSpacing c then (.plain, true)
      else (if isWithin 0x30 0x7E c then .plain else .intermediate, false)
    | .control =>
      if isSpacing c then (.plain, true)
      else (if isWithin 0x40 0x7E c then .plain else .control, false)
    | .command => (if c == '\x07' then .plain else .command, false)
    | .device | .deviceParameters | .deviceIntermediate => (afterDevice mode c, false)
    | .message => (if endsString c then .plain else .message, false)

/-- The printed characters from some mode on. -/
def printedFrom : Mode → Text → Text
  | _, [] => []
  | mode, c :: rest =>
    let (next, shown) := step mode c
    if shown then c :: printedFrom next rest else printedFrom next rest

def printed (text : Text) : Text := printedFrom .plain text

example : printed "a\x1b[1;31mb\x1b[0m\x07c".toList = "abc".toList := by decide +kernel

example : printed "a\x1bPqÜb".toList = "ab".toList := by decide +kernel

end PathFilter.Text.Terminal
