import PathFilter.Text.FlagList

set_option autoImplicit false
set_option relaxedAutoImplicit false

namespace PathFilter

/-- What a match allows beyond the bare pattern. -/
structure MatchOptions where
  /-- A missing pattern matches. -/
  missingPattern : Bool := false
  /-- A missing path is matched. -/
  missingPath : Bool := false
  /-- The pattern may begin at any component. -/
  anywhere : Bool := false
  /-- A leading `@` component of the path is the repository root. -/
  repoRoot : Bool := false
  /-- One separator at the end of the path does not count. -/
  trailingSeparator : Bool := false
  /-- Everything below a matching folder matches. -/
  belowFolders : Bool := false
  deriving DecidableEq, Repr

namespace MatchOptions

def none : MatchOptions := {}

def flags (options : MatchOptions) : List Bool :=
  [options.missingPattern, options.missingPath, options.anywhere, options.repoRoot,
    options.trailingSeparator, options.belowFolders]

/-- The options as a number, one bit each. -/
def bits (options : MatchOptions) : Nat := Text.bitsOf options.flags

/-- The options that a number has bits for; other bits are dropped. -/
def ofBits (bits : Nat) : MatchOptions where
  missingPattern := bits.testBit 0
  missingPath := bits.testBit 1
  anywhere := bits.testBit 2
  repoRoot := bits.testBit 3
  trailingSeparator := bits.testBit 4
  belowFolders := bits.testBit 5

def zip (f : Bool → Bool → Bool) (a b : MatchOptions) : MatchOptions where
  missingPattern := f a.missingPattern b.missingPattern
  missingPath := f a.missingPath b.missingPath
  anywhere := f a.anywhere b.anywhere
  repoRoot := f a.repoRoot b.repoRoot
  trailingSeparator := f a.trailingSeparator b.trailingSeparator
  belowFolders := f a.belowFolders b.belowFolders

def union (a b : MatchOptions) : MatchOptions := zip or a b

def inter (a b : MatchOptions) : MatchOptions := zip and a b

def diff (a b : MatchOptions) : MatchOptions := zip (fun x y => x && !y) a b

def contains (a b : MatchOptions) : Bool := inter a b = b

def isEmpty (a : MatchOptions) : Bool := a = none

def describe (options : MatchOptions) : Text :=
  Text.flagList "MatchFlags" <| options.flags.zip
    ["MATCH_NULL_PATTERN", "MATCH_NULL_FILENAME", "MATCH_ANYWHERE", "MATCH_REPO_ROOT",
      "MATCH_TRAILING_SLASH", "MATCH_FOLDERS_RECURSIVELY"]

theorem ofBits_bits (options : MatchOptions) : ofBits options.bits = options := by
  rcases options with ⟨a, b, c, d, e, f⟩
  cases a <;> cases b <;> cases c <;> cases d <;> cases e <;> cases f <;> rfl

@[simp] theorem union_none (a : MatchOptions) : a.union none = a := by
  simp [union, zip, none]

section Fields

variable (a b : MatchOptions)

@[simp] theorem anywhere_union : (a.union b).anywhere = (a.anywhere || b.anywhere) := rfl

@[simp] theorem repoRoot_union : (a.union b).repoRoot = (a.repoRoot || b.repoRoot) := rfl

@[simp] theorem trailingSeparator_union :
    (a.union b).trailingSeparator = (a.trailingSeparator || b.trailingSeparator) := rfl

@[simp] theorem belowFolders_union :
    (a.union b).belowFolders = (a.belowFolders || b.belowFolders) := rfl

@[simp] theorem anywhere_diff : (a.diff b).anywhere = (a.anywhere && !b.anywhere) := rfl

@[simp] theorem repoRoot_diff : (a.diff b).repoRoot = (a.repoRoot && !b.repoRoot) := rfl

@[simp] theorem trailingSeparator_diff :
    (a.diff b).trailingSeparator = (a.trailingSeparator && !b.trailingSeparator) := rfl

@[simp] theorem belowFolders_diff :
    (a.diff b).belowFolders = (a.belowFolders && !b.belowFolders) := rfl

end Fields

theorem union_comm (a b : MatchOptions) : a.union b = b.union a := by
  simp [union, zip, Bool.or_comm]

theorem union_assoc (a b c : MatchOptions) : (a.union b).union c = a.union (b.union c) := by
  simp [union, zip, Bool.or_assoc]

end MatchOptions

end PathFilter
