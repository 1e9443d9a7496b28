import PathFilter.Glob.Wildcard

/-!
Matching the segments of a pattern against the components of a path. A segment is a name pattern,
which takes one component, or `anyDepth`, which takes any run of components.

`Aligned` says when segments take components, `aligns` searches for a division by plain recursion,
and `tableAligns` fills one row of a table for each segment, the last segment first. A row holds,
for each number of dropped components, whether the segments so far take the remaining ones. Only two
rows exist; they change places after each segment.
-/

set_option autoImplicit false
set_option relaxedAutoImplicit false

namespace PathFilter

inductive Segment
  /-- Any number of path components. -/
  | anyDepth
  /-- One path component that the characters take. -/
  | name (pattern : List Char)
  deriving DecidableEq, Repr

namespace Segment

/-- A name pattern that begins with a wildcard does not see a name that begins with a dot. -/
def hides (pattern : List Char) (component : Text) : Bool :=
  component.head? = some '.' && (pattern.head? = some '*' || pattern.head? = some '?')

def nameAccepts (pattern : List Char) (component : Text) : Bool :=
  if hides pattern component then false else Wildcard.accepts pattern component

def NameFits (pattern : List Char) (component : Text) : Prop :=
  ¬ (component.head? = some '.' ∧ (pattern.head? = some '*' ∨ pattern.head? = some '?')) ∧
    Wildcard.Fits pattern component

/-- The components are divided, in order and without remainder, among the segments. -/
inductive Aligned : List Segment → List Text → Prop
  | nil : Aligned [] []
  | anyDepth {segments : List Segment} {rest : List Text} (run : List Text) :
      Aligned segments rest → Aligned (.anyDepth :: segments) (run ++ rest)
  | name {pattern : List Char} {component : Text} {segments : List Segment} {rest : List Text} :
      NameFits pattern component → Aligned segments rest →
      Aligned (.name pattern :: segments) (component :: rest)

/-- Plain search for a division: `anyDepth` takes nothing, or one component and goes on. -/
def aligns : List Segment → List Text → Bool
  | [], components => components.isEmpty
  | .anyDepth :: segments, [] => aligns segments []
  | .anyDepth :: segments, component :: rest =>
    aligns segments (component :: rest) || aligns (.anyDepth :: segments) rest
  | .name _ :: _, [] => false
  | .name pattern :: segments, component :: rest =>
    nameAccepts pattern component && aligns segments rest
termination_by segments components => (segments.length, components.length)

/-- A row of the table: entry `j` stands for the components from index `j` on. -/
abbrev Row := Array Bool

def lastEntry (segment : Segment) (next : Row) (count : Nat) : Bool :=
  match segment with
  | .anyDepth => next.getD count false
  | .name _ => false

/-- Entry `j` of the row for a segment, from the row below and the entries after `j`. -/
def entry (segment : Segment) (components : Array Text) (next current : Row) (j : Nat) : Bool :=
  match segment with
  | .anyDepth => next.getD j false || current.getD (j + 1) false
  | .name pattern => next.getD (j + 1) false && nameAccepts pattern (components.getD j [])

def fillBelow (segment : Segment) (components : Array Text) (next : Row) : Nat → Row → Row
  | 0, current => current
  | j + 1, current =>
    fillBelow segment components next j
      (current.setIfInBounds j (entry segment components next current j))

/-- The row for a segment, written over a row that is no longer needed. -/
def fill (components : Array Text) (segment : Segment) (next current : Row) : Row :=
  fillBelow segment components next components.size
    (current.setIfInBounds components.size (lastEntry segment next components.size))

structure Rows where
  next : Row
  spare : Row

/-- One round: the spare row is filled and the two rows change places. -/
def Rows.round (components : Array Text) (segment : Segment) (rows : Rows) : Rows where
  next := fill components segment rows.next rows.spare
  spare := rows.next

/-- The rows before the first round: no segments take no components only. -/
def Rows.start (count : Nat) : Rows where
  next := (Array.replicate (count + 1) false).setIfInBounds count true
  spare := Array.replicate (count + 1) false

def tableAligns (segments : List Segment) (components : List Text) : Bool :=
  let rows := segments.foldr (Rows.round components.toArray) (Rows.start components.length)
  rows.next.getD 0 false

end Segment

end PathFilter
