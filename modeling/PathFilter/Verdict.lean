import PathFilter.Text.Basic

set_option autoImplicit false
set_option relaxedAutoImplicit false

namespace PathFilter

inductive Verdict
  | included
  | excluded
  | ignored
  /-- No rule claims the path and no rule has to. -/
  | implied
  /-- There are including rules and none claims the path. -/
  | maybe
  deriving DecidableEq, Repr

namespace Verdict

/-- The verdicts in the order of their report. -/
def all : List Verdict := [.included, .excluded, .ignored, .implied, .maybe]

def accepted : Verdict → Bool
  | .included | .implied => true
  | .excluded | .ignored | .maybe => false

def name : Verdict → Text
  | .included => "included".toList
  | .excluded => "excluded".toList
  | .ignored => "ignored".toList
  | .implied => "implied".toList
  | .maybe => "maybe".toList

def ofName? (name : Text) : Option Verdict := all.find? fun verdict => verdict.name = name

end Verdict

/-- How many verdicts of each kind a batch has had. -/
structure Tally where
  included : Nat := 0
  excluded : Nat := 0
  ignored : Nat := 0
  implied : Nat := 0
  maybe : Nat := 0
  deriving DecidableEq, Repr

namespace Tally

def empty : Tally := {}

def count (tally : Tally) : Verdict → Nat
  | .included => tally.included
  | .excluded => tally.excluded
  | .ignored => tally.ignored
  | .implied => tally.implied
  | .maybe => tally.maybe

def record (tally : Tally) : Verdict → Tally
  | .included => { tally with included := tally.included + 1 }
  | .excluded => { tally with excluded := tally.excluded + 1 }
  | .ignored => { tally with ignored := tally.ignored + 1 }
  | .implied => { tally with implied := tally.implied + 1 }
  | .maybe => { tally with maybe := tally.maybe + 1 }

def total (tally : Tally) : Nat :=
  tally.included + tally.excluded + tally.ignored + tally.implied + tally.maybe

def accepted (tally : Tally) : Nat := tally.included + tally.implied

inductive Change
  | record (verdict : Verdict)
  | reset
  deriving DecidableEq, Repr

def apply (tally : Tally) : Change → Tally
  | .record verdict => tally.record verdict
  | .reset => empty

@[simp] theorem count_record (tally : Tally) (verdict other : Verdict) :
    (tally.record verdict).count other = tally.count other + if verdict = other then 1 else 0 := by
  cases verdict <;> cases other <;> rfl

@[simp] theorem total_record (tally : Tally) (verdict : Verdict) :
    (tally.record verdict).total = tally.total + 1 := by
  cases verdict <;> simp only [record, total] <;> omega

@[simp] theorem accepted_record (tally : Tally) (verdict : Verdict) :
    (tally.record verdict).accepted = tally.accepted + if verdict.accepted then 1 else 0 := by
  cases verdict <;> simp [record, accepted, Verdict.accepted] <;> omega

end Tally

end PathFilter
