import PathFilter.Glob.Basic

/-!
A rule is a pattern with its own options. Rules are compared by text and options; how a rule came by
its text makes no difference.
-/

set_option autoImplicit false
set_option relaxedAutoImplicit false

namespace PathFilter

structure Rule where
  text : Text
  options : MatchOptions
  /-- The text belongs to the caller; a lasting copy has its own. -/
  borrowed : Bool
  /-- The compiled text. -/
  glob : Glob
  deriving DecidableEq, Repr

namespace Rule

/-- A rule whose text belongs to the caller. -/
def borrow (text : Text) (options : MatchOptions) : Rule := ⟨text, options, true, .compile text⟩

def own (text : Text) (options : MatchOptions) : Rule := ⟨text, options, false, .compile text⟩

def owned (rule : Rule) : Rule := { rule with borrowed := false }

/-- Decides whether the rule matches a path, under its own options and some more. -/
def accepts (rule : Rule) (path : Text) (options : MatchOptions) : Bool :=
  rule.glob.accepts path (rule.options.union options)

def same (a b : Rule) : Bool := a.text = b.text && a.options = b.options

/-- Two lists hold the same rules in the same order. -/
def sameList : List Rule → List Rule → Bool
  | [], [] => true
  | a :: as, b :: bs => same a b && sameList as bs
  | _, _ => false

def firstMatch? (rules : List Rule) (path : Text) (options : MatchOptions) : Option Rule :=
  rules.find? fun rule => rule.accepts path options

def anyAccepts (rules : List Rule) (path : Text) (options : MatchOptions) : Bool :=
  (firstMatch? rules path options).isSome

theorem same_iff (a b : Rule) : same a b = true ↔ a.text = b.text ∧ a.options = b.options := by
  simp [same]

end Rule

end PathFilter
