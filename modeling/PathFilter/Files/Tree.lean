import PathFilter.Files.Basic

/-!
Files that are given beforehand, for runs that touch no disk: a folder tree and the reading of names
in it. Sessions and loads are stated over any `Files`, and `FileTree.files` is one for which they
can be computed; the program itself reads the system's.

A name is a way: it starts at the working folder, or
at the root if it begins with a separator, and goes on step by step. An empty step and `.` stay,
`..` goes up, and each step needs a folder to stand on. Different ways can lead to one place.
-/

set_option autoImplicit false
set_option relaxedAutoImplicit false

namespace PathFilter

inductive FileNode
  | file (content : Bytes)
  | folder
  deriving DecidableEq, Repr

namespace FileTree

def slash : UInt8 := 0x2F

def dot : UInt8 := 0x2E

def up : Bytes := [dot, dot]

def stepsOf (name : FileName) : List Bytes := Text.cut (· == slash) name

/-- A step that leads to the folder it starts from. -/
def stays (step : Bytes) : Bool := step = [] || step = [dot]

def stepLimit : Nat := 255

def nameLimit : Nat := 4095

/-- A place, by the shortest way to it. Steps up come first, and there are none from the root. -/
structure Location where
  /-- The way starts at the root and not at the working folder. -/
  rooted : Bool
  steps : List Bytes
  deriving DecidableEq, Repr

namespace Location

/-- The working folder or a folder it stands in, as far as steps up lead; the root for a way from
there. -/
def isAncestor (location : Location) : Bool := location.steps.all (· == up)

/-- The place after one more step. There is nothing above the root, so a step up stays there. -/
def move (location : Location) (step : Bytes) : Location :=
  if stays step then location
  else if step ≠ up then { location with steps := location.steps ++ [step] }
  else if !location.isAncestor then { location with steps := location.steps.dropLast }
  else if location.rooted then location
  else { location with steps := location.steps ++ [up] }

def start (name : FileName) : Location := ⟨name.head? = some slash, []⟩

/-- Where a name leads if every step can be taken. -/
def ofName (name : FileName) : Location := (stepsOf name).foldl move (start name)

/-- The places that a way passes, the one it starts from included and its end excluded. -/
def passed : Location → List Bytes → List Location
  | _, [] => []
  | location, step :: rest => location :: passed (location.move step) rest

end Location

end FileTree

open FileTree (Location)

/-- Places and what they hold. The first entry of a place counts. The ancestors of the working
folder are folders and need no entry. -/
structure FileTree where
  entries : List (Location × FileNode)

namespace FileTree

def node? (tree : FileTree) (location : Location) : Option FileNode :=
  if location.isAncestor then some .folder else tree.entries.lookup location

/-- Puts a node where a name leads. The places on the way become folders unless they hold something.
-/
def insert (tree : FileTree) (name : FileName) (node : FileNode) : FileTree where
  entries :=
    (Location.ofName name, node) :: tree.entries ++
      ((Location.start name).passed (stepsOf name)).map (·, .folder)

/-- A tree from names and what they stand for. Of two names for one place the later counts. -/
def ofNames (names : List (FileName × FileNode)) : FileTree :=
  names.foldl (fun tree entry => tree.insert entry.1 entry.2) ⟨[]⟩

def walk (tree : FileTree) (location : Location) (step : Bytes) : Except ReadFailure Location :=
  match tree.node? location with
  | some .folder =>
    let next := location.move step
    if stepLimit < step.length then .error .nameTooLong
    else if (tree.node? next).isSome then .ok next
    else .error .notFound
  | _ => .error .notFolder

/-- The bytes under a name. A name with a NUL byte, an overlong name and the empty name are refused
before any step is taken. -/
def read (tree : FileTree) (name : FileName) : Except ReadFailure Bytes := do
  if name.contains 0 then throw .nulInName
  if nameLimit < name.length then throw .nameTooLong
  if name.isEmpty then throw .notFound
  match tree.node? (← (stepsOf name).foldlM (walk tree) (Location.start name)) with
  | some (.file content) => pure content
  | some .folder => throw .isFolder
  | none => throw .notFound

def files (tree : FileTree) : Files where
  read := tree.read

example :
    ((ofNames [("./a/../b".toUTF8.toList, .file [1])]).read "a/.././b".toUTF8.toList).toOption =
      some [1] := by
  decide +kernel

end FileTree

end PathFilter
