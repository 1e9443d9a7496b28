import PathFilter.Text.Basic

/-!
UTF-8: the bytes of a text, and reading bytes one at a time. The reader cuts its input into
characters and ill-formed pieces, a piece being the longest start of a character that the following
byte breaks off. Strict decoding wants no such piece; lenient decoding puts U+FFFD for each.
-/

set_option autoImplicit false
set_option relaxedAutoImplicit false

namespace PathFilter

abbrev Bytes := List UInt8

namespace Utf8

def encodeChar (c : Char) : Bytes :=
  let n := c.toNat
  if n < 0x80 then [UInt8.ofNat n]
  else if n < 0x800 then [UInt8.ofNat (0xC0 + n / 0x40), UInt8.ofNat (0x80 + n % 0x40)]
  else if n < 0x10000 then
    [UInt8.ofNat (0xE0 + n / 0x1000), UInt8.ofNat (0x80 + n / 0x40 % 0x40),
      UInt8.ofNat (0x80 + n % 0x40)]
  else
    [UInt8.ofNat (0xF0 + n / 0x40000), UInt8.ofNat (0x80 + n / 0x1000 % 0x40),
      UInt8.ofNat (0x80 + n / 0x40 % 0x40), UInt8.ofNat (0x80 + n % 0x40)]

def encode (text : Text) : Bytes := text.flatMap encodeChar

def width (c : Char) : Nat := (encodeChar c).length

/-- A character of which some bytes are read: the bits so far, the number of bytes owed, and the
least and greatest value of the next one. -/
structure Pending where
  bits : Nat
  owed : Nat
  least : Nat
  greatest : Nat
  deriving DecidableEq, Repr

/-- What a byte leads to: a whole character, an unfinished one, or nothing well formed. -/
inductive Progress
  | done (c : Char)
  | more (pending : Pending)
  | broken
  deriving DecidableEq, Repr

def first (b : UInt8) : Progress :=
  let n := b.toNat
  if n < 0x80 then .done (Char.ofNat n)
  else if n < 0xC2 then .broken
  else if n < 0xE0 then .more ⟨n - 0xC0, 1, 0x80, 0xBF⟩
  else if n = 0xE0 then .more ⟨0, 2, 0xA0, 0xBF⟩
  else if n = 0xED then .more ⟨0xD, 2, 0x80, 0x9F⟩
  else if n < 0xF0 then .more ⟨n - 0xE0, 2, 0x80, 0xBF⟩
  else if n = 0xF0 then .more ⟨0, 3, 0x90, 0xBF⟩
  else if n < 0xF4 then .more ⟨n - 0xF0, 3, 0x80, 0xBF⟩
  else if n = 0xF4 then .more ⟨4, 3, 0x80, 0x8F⟩
  else .broken

def next (pending : Pending) (b : UInt8) : Progress :=
  let n := b.toNat
  if n < pending.least || pending.greatest < n then .broken
  else
    let bits := pending.bits * 0x40 + n % 0x40
    if pending.owed ≤ 1 then .done (Char.ofNat bits)
    else .more ⟨bits, pending.owed - 1, 0x80, 0xBF⟩

/-- The characters of a byte sequence in order, with `none` for each ill-formed piece. A byte that
breaks a character off is read again as the first byte of the next one. -/
def pieces : Option Pending → Bytes → List (Option Char)
  | none, [] => []
  | some _, [] => [none]
  | none, b :: rest =>
    match first b with
    | .done c => some c :: pieces none rest
    | .more pending => pieces (some pending) rest
    | .broken => none :: pieces none rest
  | some pending, b :: rest =>
    match next pending b with
    | .done c => some c :: pieces none rest
    | .more pending => pieces (some pending) rest
    | .broken =>
      none :: match first b with
        | .done c => some c :: pieces none rest
        | .more pending => pieces (some pending) rest
        | .broken => none :: pieces none rest

/-- The text that well-formed bytes stand for. -/
def decode? (bytes : Bytes) : Option Text := (pieces none bytes).mapM id

/-- The text of any bytes, with U+FFFD in place of each ill-formed piece. -/
def decodeLossy (bytes : Bytes) : Text := (pieces none bytes).map (·.getD '\uFFFD')

/-- The text of the longest well-formed beginning and the bytes after it, where `mark` is what is
left of the input from the character being read on. -/
def validPart (mark : Bytes) : Option Pending → Bytes → Text × Bytes
  | none, [] => ([], [])
  | some _, [] => ([], mark)
  | none, b :: rest =>
    match first b with
    | .done c =>
      let (text, tail) := validPart rest none rest
      (c :: text, tail)
    | .more pending => validPart (b :: rest) (some pending) rest
    | .broken => ([], b :: rest)
  | some pending, b :: rest =>
    match next pending b with
    | .done c =>
      let (text, tail) := validPart rest none rest
      (c :: text, tail)
    | .more pending => validPart mark (some pending) rest
    | .broken => ([], mark)

/-- Cuts bytes after the longest beginning that is well formed. -/
def splitValid (bytes : Bytes) : Text × Bytes := validPart bytes none bytes

example : splitValid [0x61, 0xC3, 0xA9, 0xE2, 0x82] = (['a', 'é'], [0xE2, 0x82]) := by decide

example : decodeLossy [0x61, 0xE2, 0x82, 0x62, 0xFF] = ['a', '\uFFFD', 'b', '\uFFFD'] := by decide

example : decode? (encode ['a', 'é', '€', '😀']) = some ['a', 'é', '€', '😀'] := by decide

end Utf8

end PathFilter
