import PathFilter.CommandLine.Options

/-!
The forms of a single argument: the end of options, a long option with or without an attached value,
a cluster of letters, or anything else. A lone hyphen is not an option.
-/

set_option autoImplicit false
set_option relaxedAutoImplicit false

namespace PathFilter.CommandLine

/-- The form of an argument. -/
inductive Argument
  /-- Two hyphens: all that follows is a path. -/
  | terminator
  /-- Two hyphens, a name, and perhaps an equals sign and a value. -/
  | long (name : Bytes) (value? : Option Bytes)
  /-- One hyphen and letters; the bytes after the last whole letter are kept apart. -/
  | cluster (letters : Text) (tail : Bytes)
  | plain
  deriving DecidableEq, Repr

namespace Argument

def hyphen : UInt8 := 0x2D

def equalsSign : UInt8 := 0x3D

def readLong (text : Bytes) : Argument :=
  match Text.splitFirst? equalsSign text with
  | none => .long text none
  | some (name, value) => .long name (some value)

def read : Bytes → Argument
  | [] => .plain
  | [_] => .plain
  | a :: b :: rest =>
    if a ≠ hyphen then .plain
    else if b ≠ hyphen then
      let (letters, tail) := Utf8.splitValid (b :: rest)
      .cluster letters tail
    else if rest.isEmpty then .terminator
    else readLong rest

end Argument

end PathFilter.CommandLine
