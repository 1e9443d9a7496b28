import PathFilter.Json.Writer

/-!
Reading JSON objects whose members are strings and truth values. White space may stand between any
two tokens; a string may write any character by its code, two codes of surrogates standing for one
character.
-/

set_option autoImplicit false
set_option relaxedAutoImplicit false

namespace PathFilter.Json

def isSpace (c : Char) : Bool := c == ' ' || c == '\t' || c == '\n' || c == '\r'

def skipSpace (text : Text) : Text := text.dropWhile isSpace

def digitValue? (c : Char) : Option Nat :=
  if '0' ≤ c && c ≤ '9' then some (c.toNat - 0x30)
  else if 'a' ≤ c && c ≤ 'f' then some (c.toNat - 0x57)
  else if 'A' ≤ c && c ≤ 'F' then some (c.toNat - 0x37)
  else none

def unit? (a b c d : Char) : Option Nat := do
  let a ← digitValue? a
  let b ← digitValue? b
  let c ← digitValue? c
  let d ← digitValue? d
  return ((a * 16 + b) * 16 + c) * 16 + d

/-- The character that a letter stands for after a backslash. -/
def unescape? : Char → Option Char
  | '"' => some '"'
  | '\\' => some '\\'
  | '/' => some '/'
  | 'b' => some '\x08'
  | 'f' => some '\x0c'
  | 'n' => some '\n'
  | 'r' => some '\r'
  | 't' => some '\t'
  | _ => none

def charOf? (unit : Nat) : Option Char :=
  if 0xD800 ≤ unit && unit ≤ 0xDFFF then none else some (Char.ofNat unit)

/-- The character of two surrogates, the high one first. -/
def pairOf? (high low : Nat) : Option Char :=
  if 0xD800 ≤ high && high ≤ 0xDBFF && 0xDC00 ≤ low && low ≤ 0xDFFF then
    some (Char.ofNat (0x10000 + (high - 0xD800) * 0x400 + (low - 0xDC00)))
  else none

/-- Reads a string after its opening quote; what follows the closing one is left. -/
def readChars : Text → Option (Text × Text)
  | [] => none
  | '"' :: rest => some ([], rest)
  | '\\' :: 'u' :: a :: b :: c :: d :: '\\' :: 'u' :: e :: f :: g :: h :: rest =>
    match (unit? a b c d).bind charOf? with
    | some char =>
      (readChars ('\\' :: 'u' :: e :: f :: g :: h :: rest)).map fun read => (char :: read.1, read.2)
    | none => do
      let char ← pairOf? (← unit? a b c d) (← unit? e f g h)
      let read ← readChars rest
      return (char :: read.1, read.2)
  | '\\' :: 'u' :: a :: b :: c :: d :: rest => do
    let char ← (unit? a b c d).bind charOf?
    let read ← readChars rest
    return (char :: read.1, read.2)
  | '\\' :: letter :: rest => do
    let char ← unescape? letter
    let read ← readChars rest
    return (char :: read.1, read.2)
  | c :: rest =>
    if c.toNat < 0x20 || c == '\\' then none
    else (readChars rest).map fun read => (c :: read.1, read.2)

def readString : Text → Option (Text × Text)
  | '"' :: rest => readChars rest
  | _ => none

def readValue (text : Text) : Option (Value × Text) :=
  match Text.after? "true".toList text, Text.after? "false".toList text with
  | some rest, _ => some (.flag true, rest)
  | none, some rest => some (.flag false, rest)
  | none, none => (readString text).map fun read => (.text read.1, read.2)

def readMember (text : Text) : Option ((Text × Value) × Text) := do
  let (name, rest) ← readString text
  match skipSpace rest with
  | ':' :: rest =>
    let (value, rest) ← readValue (skipSpace rest)
    return ((name, value), rest)
  | _ => none

/-- Reads members up to the closing brace, at most as many as allowed. -/
def readMembers : Nat → Text → Option (List (Text × Value) × Text)
  | 0, _ => none
  | allowed + 1, text => do
    let (member, rest) ← readMember text
    match skipSpace rest with
    | ',' :: rest =>
      let (members, rest) ← readMembers allowed (skipSpace rest)
      return (member :: members, rest)
    | '\x7d' :: rest => return ([member], rest)
    | _ => none

/-- Reads an object that is the whole text, white space around it apart. A member takes at least one
character, so the length of the text bounds their number. -/
def readObject (text : Text) : Option (List (Text × Value)) :=
  match skipSpace text with
  | '\x7b' :: rest =>
    match skipSpace rest with
    | '\x7d' :: rest => if (skipSpace rest).isEmpty then some [] else none
    | rest => do
      let (members, rest) ← readMembers text.length rest
      if (skipSpace rest).isEmpty then return members else none
  | _ => none

example : readObject (writeObject [(['a'], .text ['"', '\\', '\x01', 'é']), (['b'], .flag true)]) =
    some [(['a'], .text ['"', '\\', '\x01', 'é']), (['b'], .flag true)] := by decide +kernel

end PathFilter.Json
