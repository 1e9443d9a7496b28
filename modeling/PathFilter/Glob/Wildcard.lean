import PathFilter.Text.Utf8

/-!
Matching one pattern component against one path component. In a pattern `*` takes any run of
characters, `?` any one character, and any other character itself.

`Fits` says when a pattern takes a name. `scan` decides it without search: it reads the name from
left to right and, on a mismatch, gives one more character to the last star it passed. The scan
walks byte offsets; its `Outcome` keeps apart every way it can stop, so that statements can say
which of them occur.
-/

set_option autoImplicit false
set_option relaxedAutoImplicit false

namespace PathFilter.Wildcard

inductive Takes : Char → Text → Prop
  | star (piece : Text) : Takes '*' piece
  | one (c : Char) : Takes '?' [c]
  | self {c : Char} (notStar : c ≠ '*') (notOne : c ≠ '?') : Takes c [c]

/-- A name is cut into consecutive pieces, one for each pattern character. -/
inductive Fits : List Char → Text → Prop
  | nil : Fits [] []
  | cons {p : Char} {piece : Text} {pattern : List Char} {name : Text} :
      Takes p piece → Fits pattern name → Fits (p :: pattern) (piece ++ name)

/-- The bytes of a name: its character at the first byte of each, `none` at its later bytes. -/
def byteMap (name : Text) : Array (Option Char) :=
  (name.flatMap fun c => some c :: List.replicate (Utf8.width c - 1) none).toArray

inductive Reading
  | char (c : Char)
  | finish
  /-- Inside a character or beyond the end. -/
  | misplaced
  deriving DecidableEq, Repr

def read (bytes : Array (Option Char)) (offset : Nat) : Reading :=
  match bytes[offset]? with
  | some (some c) => .char c
  | some none => .misplaced
  | none => if offset = bytes.size then .finish else .misplaced

/-- How far a scan is: the next pattern position, the next byte offset, the position of the last
star passed, and the offset up to which that star has taken characters. -/
structure Scan where
  position : Nat := 0
  offset : Nat := 0
  star : Option Nat := none
  resume : Nat := 0
  deriving DecidableEq, Repr

inductive Outcome
  | accepted
  | rejected
  /-- The last star has no further character to take. -/
  | exhausted
  /-- An offset or a position is out of range. -/
  | misplaced
  /-- The steps allowed are used up. -/
  | unfinished
  deriving DecidableEq, Repr

inductive Move
  | go (scan : Scan)
  | stop (outcome : Outcome)
  deriving DecidableEq, Repr

/-- Gives the last star one more character, or rejects when there was no star. -/
def retreat (bytes : Array (Option Char)) (scan : Scan) : Move :=
  match scan.star with
  | none => .stop .rejected
  | some star =>
    match read bytes scan.resume with
    | .char c =>
      let resume := scan.resume + Utf8.width c
      .go { position := star + 1, offset := resume, star := some star, resume := resume }
    | .finish => .stop .exhausted
    | .misplaced => .stop .misplaced

/-- The end of the name: what is left of the pattern must be stars. -/
def conclude (pattern : Array Char) (scan : Scan) : Outcome :=
  if pattern.size < scan.position then .misplaced
  else if (pattern.toList.drop scan.position).all (· == '*') then .accepted
  else .rejected

def step (pattern : Array Char) (bytes : Array (Option Char)) (scan : Scan) : Move :=
  match read bytes scan.offset with
  | .misplaced => .stop .misplaced
  | .finish => .stop (conclude pattern scan)
  | .char c =>
    match pattern[scan.position]? with
    | none => retreat bytes scan
    | some p =>
      if p = '*' then
        .go { position := scan.position + 1, offset := scan.offset, star := some scan.position,
              resume := scan.offset }
      else if p = '?' || p = c then
        .go { scan with position := scan.position + 1, offset := scan.offset + Utf8.width c }
      else retreat bytes scan

/-- Steps until the scan stops, at most as many as allowed. -/
def run (pattern : Array Char) (bytes : Array (Option Char)) : Nat → Scan → Outcome
  | 0, _ => .unfinished
  | steps + 1, scan =>
    match step pattern bytes scan with
    | .stop outcome => outcome
    | .go scan => run pattern bytes steps scan

/-- Steps that suffice for every scan: between two retreats the position only grows, and every
retreat moves the offset of the last star. -/
def stepBound (pattern : Array Char) (bytes : Array (Option Char)) : Nat :=
  (bytes.size + 1) * (pattern.size + 1)

def scan (pattern : List Char) (name : Text) : Outcome :=
  let bytes := byteMap name
  let pattern := pattern.toArray
  run pattern bytes (stepBound pattern bytes) {}

def accepts (pattern : List Char) (name : Text) : Bool := scan pattern name = .accepted

example : accepts "*of*fo".toList "aofbofcfo".toList = true := by decide +kernel

example : accepts "caf?".toList "café".toList = true := by decide +kernel

example : scan "*a".toList "aab".toList = .rejected := by decide +kernel

end PathFilter.Wildcard
