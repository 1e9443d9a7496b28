import PathFilter.Glob.Basic
import PathFilter.Proofs.Glob.Alignment

/-!
What the table reads. The same rounds are run on rows that know which of their entries were written:
in the row that a round is going to write, everything is left over from an earlier round and cannot
be read. Such a run has no result as soon as it reads an entry left over, or reads or writes outside
a row or the components. It always has a result, and that is the one of the table: in the middle of
a round the entries from the last index written on are all that is known of the row
(`Row.writtenFrom`), and the next entry needs no other.
-/

set_option autoImplicit false
set_option relaxedAutoImplicit false

namespace PathFilter.Segment

/-- A row in which an entry left over from an earlier round is `none`. -/
abbrev CheckedRow := Array (Option Bool)

namespace CheckedRow

def read? (row : CheckedRow) (j : Nat) : Option Bool := row[j]?.join

def write? (row : CheckedRow) (j : Nat) (value : Bool) : Option CheckedRow :=
  if j < row.size then some (row.setIfInBounds j (some value)) else none

/-- The row when a new round begins: whatever it holds is left over. -/
def leftOver (row : CheckedRow) : CheckedRow := row.map fun _ => none

end CheckedRow

def checkedLastEntry (segment : Segment) (next : CheckedRow) (count : Nat) : Option Bool :=
  match segment with
  | .anyDepth => next.read? count
  | .name _ => some false

/-- Entry `j` of the row for a segment. An entry after `j` is read only if the row below does not
settle the matter. -/
def checkedEntry (segment : Segment) (components : Array Text) (next current : CheckedRow)
    (j : Nat) : Option Bool :=
  match segment with
  | .anyDepth => do
    if ← next.read? j then return true else current.read? (j + 1)
  | .name pattern => do
    if ← next.read? (j + 1) then return nameAccepts pattern (← components[j]?) else return false

def checkedFillBelow (segment : Segment) (components : Array Text) (next : CheckedRow) :
    Nat → CheckedRow → Option CheckedRow
  | 0, current => some current
  | j + 1, current => do
    let value ← checkedEntry segment components next current j
    checkedFillBelow segment components next j (← current.write? j value)

def checkedFill (components : Array Text) (segment : Segment) (next current : CheckedRow) :
    Option CheckedRow := do
  let value ← checkedLastEntry segment next components.size
  checkedFillBelow segment components next components.size (← current.write? components.size value)

structure CheckedRows where
  next : CheckedRow
  spare : CheckedRow

/-- One round: nothing in the spare row can be read until it is written, and then the two rows
change places. -/
def CheckedRows.round (components : Array Text) (segment : Segment) (rows : CheckedRows) :
    Option CheckedRows := do
  return {
    next := ← checkedFill components segment rows.next rows.spare.leftOver
    spare := rows.next }

def Row.written (row : Row) : CheckedRow := row.map some

/-- The entries of the row from an index on were written. -/
def Row.writtenFrom (row : Row) (start : Nat) : CheckedRow :=
  row.mapIdx fun j value => if start ≤ j then some value else none

def Rows.written (rows : Rows) : CheckedRows where
  next := rows.next.written
  spare := rows.spare.written

def checkedAligns (segments : List Segment) (components : List Text) : Option Bool := do
  let rows ←
    segments.foldrM (CheckedRows.round components.toArray) (Rows.start components.length).written
  rows.next.read? 0

namespace Row

variable {row : Row} {start j : Nat}

private theorem writtenFrom_zero (row : Row) : row.writtenFrom 0 = row.written := by
  apply Array.ext_getElem?
  intro j
  simp [writtenFrom, written]

private theorem leftOver_written (row : Row) : row.written.leftOver = row.writtenFrom row.size := by
  apply Array.ext
  · simp [writtenFrom, written, CheckedRow.leftOver]
  · intro j hleft hright
    have hj : j < row.size := by simpa [writtenFrom] using hright
    simp [writtenFrom, written, CheckedRow.leftOver, Nat.not_le_of_lt hj]

private theorem read?_writtenFrom (hstart : start ≤ j) (hj : j < row.size) :
    (row.writtenFrom start).read? j = some (row.getD j false) := by
  simp [writtenFrom, CheckedRow.read?, hstart, hj]

private theorem read?_written (hj : j < row.size) :
    row.written.read? j = some (row.getD j false) := by
  rw [← writtenFrom_zero, read?_writtenFrom (Nat.zero_le j) hj]

private theorem write?_writtenFrom (hj : j < row.size) {value : Bool} :
    (row.writtenFrom (j + 1)).write? j value =
      some (writtenFrom (row.setIfInBounds j value) j) := by
  have hsize : j < (row.writtenFrom (j + 1)).size := by simpa [writtenFrom] using hj
  rw [CheckedRow.write?, if_pos hsize]
  congr 1
  apply Array.ext_getElem?
  intro i
  simp only [writtenFrom, Array.getElem?_setIfInBounds, Array.getElem?_mapIdx, Array.size_mapIdx]
  by_cases heq : j = i
  · subst heq
    simp [hj]
  · have hle : j + 1 ≤ i ↔ j ≤ i := by omega
    simp [heq, hle]

end Row

section Rounds

variable {segment : Segment} {components : Array Text} {next row : Row}

private theorem checkedLastEntry_eq (hnext : next.size = components.size + 1) :
    checkedLastEntry segment next.written components.size =
      some (lastEntry segment next components.size) := by
  cases segment with
  | anyDepth => exact Row.read?_written (by omega)
  | name pattern => rfl

private theorem checkedEntry_eq {j : Nat} (hnext : next.size = components.size + 1)
    (hrow : row.size = components.size + 1) (hj : j < components.size) :
    checkedEntry segment components next.written (row.writtenFrom (j + 1)) j =
      some (entry segment components next row j) := by
  cases segment with
  | anyDepth =>
    have hhere : next.written.read? j = some (next.getD j false) := Row.read?_written (by omega)
    have hafter : (row.writtenFrom (j + 1)).read? (j + 1) = some (row.getD (j + 1) false) :=
      Row.read?_writtenFrom (Nat.le_refl _) (by omega)
    simp only [checkedEntry, entry, hhere, hafter, Option.bind_eq_bind, Option.bind_some]
    cases next.getD j false <;> rfl
  | name pattern =>
    have hafter : next.written.read? (j + 1) = some (next.getD (j + 1) false) :=
      Row.read?_written (by omega)
    have hname : components[j]? = some (components.getD j []) := by simp [hj]
    simp only [checkedEntry, entry, hafter, hname, Option.bind_eq_bind, Option.bind_some]
    cases next.getD (j + 1) false <;> rfl

/-- Every entry is written over before it is read. -/
theorem checkedFillBelow_eq (hnext : next.size = components.size + 1) {j : Nat}
    (hrow : row.size = components.size + 1) (hj : j ≤ components.size) :
    checkedFillBelow segment components next.written j (row.writtenFrom j) =
      some (fillBelow segment components next j row).written := by
  -- Below the last index written the row may hold anything, so the induction is over every row.
  induction j generalizing row with
  | zero => rw [checkedFillBelow, fillBelow, Row.writtenFrom_zero]
  | succ j ih =>
    have hwithin : j < row.size := by omega
    have hsize : (row.setIfInBounds j (entry segment components next row j)).size =
        components.size + 1 := by rw [Array.size_setIfInBounds, hrow]
    simp only [checkedFillBelow, checkedEntry_eq hnext hrow hj, Row.write?_writtenFrom hwithin,
      Option.bind_eq_bind, Option.bind_some]
    exact ih hsize (Nat.le_of_succ_le hj)

private theorem checkedFill_eq (hnext : next.size = components.size + 1)
    (hrow : row.size = components.size + 1) :
    checkedFill components segment next.written row.written.leftOver =
      some (fill components segment next row).written := by
  have hwithin : components.size < row.size := by omega
  have hsize : (row.setIfInBounds components.size (lastEntry segment next components.size)).size =
      components.size + 1 := by rw [Array.size_setIfInBounds, hrow]
  rw [Row.leftOver_written, hrow]
  simp only [checkedFill, checkedLastEntry_eq hnext, Row.write?_writtenFrom hwithin,
    Option.bind_eq_bind, Option.bind_some]
  exact checkedFillBelow_eq hnext hsize (Nat.le_refl _)

private theorem CheckedRows.round_written {rows : Rows}
    (hnext : rows.next.size = components.size + 1)
    (hspare : rows.spare.size = components.size + 1) :
    CheckedRows.round components segment rows.written =
      some (rows.round components segment).written := by
  simp only [CheckedRows.round, Rows.written, checkedFill_eq hnext hspare, Option.bind_eq_bind,
    Option.bind_some]
  rfl

end Rounds

private theorem foldrM_round_written (segments : List Segment) (components : List Text) :
    segments.foldrM (CheckedRows.round components.toArray) (Rows.start components.length).written =
      some (segments.foldr (Rows.round components.toArray)
        (Rows.start components.length)).written := by
  induction segments with
  | nil => rfl
  | cons segment segments ih =>
    obtain ⟨hright, hspare⟩ := rightFrom_rounds segments components
    rw [List.foldrM_cons, ih]
    exact CheckedRows.round_written hright.size hspare

theorem checkedAligns_eq_tableAligns (segments : List Segment) (components : List Text) :
    checkedAligns segments components = some (tableAligns segments components) := by
  obtain ⟨hright, -⟩ := rightFrom_rounds segments components
  rw [checkedAligns, foldrM_round_written]
  exact Row.read?_written (by rw [hright.size]; omega)

/-- The table with two rows and the plain search give the same answer for all segments and every
path. A run that cannot read an entry left over from an earlier round gives that answer too. Nor
does a single round need one, whatever the two rows hold: it writes the same row if nothing of the
spare row can be read before it is written. -/
theorem tableAligns_reads_written (segments : List Segment) (path : Text) :
    tableAligns segments (components path) = aligns segments (components path) ∧
      checkedAligns segments (components path) = some (aligns segments (components path)) ∧
      ∀ {segment : Segment} {next spare : Row}, next.size = (components path).length + 1 →
        spare.size = (components path).length + 1 →
        checkedFill (components path).toArray segment next.written spare.written.leftOver =
          some (fill (components path).toArray segment next spare).written := by
  have hplain := tableAligns_eq_aligns segments (components path)
  refine ⟨hplain, ?_, ?_⟩
  · rw [checkedAligns_eq_tableAligns, hplain]
  · intro segment next spare hnext hspare
    exact checkedFill_eq hnext hspare

/-- Three runs of folders, and a round for one of them over a row full of `true`. -/
theorem tableAligns_reads_written_misleading :
    let segments : List Segment :=
      [.anyDepth, .name ['a'], .anyDepth, .name ['a'], .anyDepth, .name ['*', 'b']]
    let path := "a/x\\a/a/.b/yb".toList
    let next : Row := #[false, false, true, false, false, false, false]
    let spare : Row := Array.replicate 7 true
    tableAligns segments (components path) = true ∧
      checkedAligns segments (components path) = some true ∧
      next.size = (components path).length + 1 ∧ spare.size = (components path).length + 1 ∧
      checkedFill (components path).toArray .anyDepth next.written spare.written.leftOver =
        some (Row.written #[true, true, true, false, false, false, false]) := by
  intro segments path next spare
  obtain ⟨htable, hchecked, hround⟩ := tableAligns_reads_written segments path
  have hanswer : tableAligns segments (components path) = true := by decide +kernel
  have hnext : next.size = (components path).length + 1 := by decide +kernel
  have hspare : spare.size = (components path).length + 1 := by decide +kernel
  have hfill : fill (components path).toArray .anyDepth next spare =
      #[true, true, true, false, false, false, false] := by decide +kernel
  refine ⟨hanswer, ?_, hnext, hspare, ?_⟩
  · rw [hchecked, ← htable, hanswer]
  · rw [hround hnext hspare, hfill]

end PathFilter.Segment
