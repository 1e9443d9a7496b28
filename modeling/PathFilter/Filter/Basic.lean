import PathFilter.Event
import PathFilter.Filter.Error
import PathFilter.Rule

/-!
A filter keeps an ordered list of rules for each role and the switches that disable roles. Adding
appends to one list and leaves everything else; a switch hides the rules of its role from decisions
and from nothing else.
-/

set_option autoImplicit false
set_option relaxedAutoImplicit false

namespace PathFilter

/-- The rules by role, each list in the order of addition, and the disabled roles. -/
structure Filter where
  includes : List Rule := []
  excludes : List Rule := []
  ignores : List Rule := []
  reserved : List Rule := []
  disabled : DisabledRoles := {}
  deriving DecidableEq, Repr

/-- Whether a filter takes a copy of a text or uses the caller's. -/
inductive Storage
  | deep
  | shallow
  deriving DecidableEq, Repr

namespace Filter

def blank : Filter := {}

def rules (filter : Filter) : Role → List Rule
  | .includes => filter.includes
  | .excludes => filter.excludes
  | .ignores => filter.ignores
  | .reserved => filter.reserved

def withRules (filter : Filter) (role : Role) (rules : List Rule) : Filter :=
  match role with
  | .includes => { filter with includes := rules }
  | .excludes => { filter with excludes := rules }
  | .ignores => { filter with ignores := rules }
  | .reserved => { filter with reserved := rules }

/-- The filter with every list of rules changed in the same way. -/
def mapRules (change : Role → List Rule → List Rule) (filter : Filter) : Filter where
  includes := change .includes filter.includes
  excludes := change .excludes filter.excludes
  ignores := change .ignores filter.ignores
  reserved := change .reserved filter.reserved
  disabled := filter.disabled

/-- A lasting copy: every rule gets a text of its own. -/
def deepCopy (filter : Filter) : Filter := filter.mapRules fun _ rules => rules.map Rule.owned

def push (filter : Filter) (role : Role) (rule : Rule) : Logged Filter := do
  Logged.emit (.ruleAdded role rule.text rule.options)
  pure (filter.withRules role (filter.rules role ++ [rule]))

def add (filter : Filter) (role : Role) (text : Text) (options : MatchOptions) : Logged Filter :=
  filter.push role (.own text options)

def addBorrowed (filter : Filter) (role : Role) (text : Text) (options : MatchOptions) :
    Logged Filter :=
  filter.push role (.borrow text options)

def addStored (filter : Filter) (role : Role) (text : Text) (options : MatchOptions)
    (storage : Storage) : Logged Filter :=
  match storage with
  | .deep => filter.add role text options
  | .shallow => filter.addBorrowed role text options

/-- The beginning of a text that has a given number of bytes, if whole characters make it up. -/
def takeBytes? : Nat → Text → Option Text
  | 0, _ => some []
  | _ + 1, [] => none
  | n + 1, c :: rest =>
    if n + 1 < Utf8.width c then none else (takeBytes? (n + 1 - Utf8.width c) rest).map (c :: ·)
termination_by _ text => text.length

/-- Adds a rule for the first `length` bytes of a text. The storage is checked first, then the
length for zero, then the cut. -/
def addCut (filter : Filter) (role : Role) (text : Text) (length : Nat) (options : MatchOptions)
    (storage : Storage) : Logged (Except FilterError Filter) :=
  match storage with
  | .shallow => pure (.error (.invalidArgument .borrowedCut))
  | .deep =>
    if length = 0 then pure (.error (.invalidArgument .zeroLength))
    else
      match takeBytes? length text with
      | none => pure (.error (.invalidArgument .badLength))
      | some start => do return .ok (← filter.add role start options)

def addAll (filter : Filter) (role : Role) (texts : List Text) (options : MatchOptions) :
    Logged Filter :=
  texts.foldlM (fun filter text => filter.add role text options) filter

def clear (filter : Filter) (roles : RoleSet) : Filter :=
  filter.mapRules fun role rules => if roles.contains role then [] else rules

def count (filter : Filter) (roles : RoleSet) : Nat :=
  (roles.roles.map fun role => (filter.rules role).length).foldr (· + ·) 0

def has (filter : Filter) (roles : RoleSet) : Bool :=
  roles.roles.any fun role => !(filter.rules role).isEmpty

def setDisabled (filter : Filter) (disabled : DisabledRoles) : Filter :=
  { filter with disabled := disabled }

/-- The switches united with some and then freed of others. -/
def modifyDisabled (filter : Filter) (add remove : DisabledRoles) : Filter :=
  filter.setDisabled ((filter.disabled.union add).diff remove)

def reset (filter : Filter) : Filter := (filter.clear .full).setDisabled .none

/-- The rules of a role that take part in decisions, if there are any. -/
def effective? (filter : Filter) (role : Role) : Option (List Rule) :=
  let rules := filter.rules role
  if filter.disabled.disables role || rules.isEmpty then none else some rules

def same (a b : Filter) : Bool :=
  Role.all.all (fun role => Rule.sameList (a.rules role) (b.rules role)) && a.disabled = b.disabled

@[simp] theorem rules_withRules (filter : Filter) (role other : Role) (rules : List Rule) :
    (filter.withRules role rules).rules other =
      if role = other then rules else filter.rules other := by
  cases role <;> cases other <;> rfl

@[simp] theorem disabled_withRules (filter : Filter) (role : Role) (rules : List Rule) :
    (filter.withRules role rules).disabled = filter.disabled := by
  cases role <;> rfl

@[simp] theorem rules_mapRules (change : Role → List Rule → List Rule) (filter : Filter)
    (role : Role) : (filter.mapRules change).rules role = change role (filter.rules role) := by
  cases role <;> rfl

@[simp] theorem value_push (filter : Filter) (role : Role) (rule : Rule) :
    (filter.push role rule).value = filter.withRules role (filter.rules role ++ [rule]) := rfl

@[simp] theorem events_push (filter : Filter) (role : Role) (rule : Rule) :
    (filter.push role rule).events = [.ruleAdded role rule.text rule.options] := rfl

@[simp] theorem rules_setDisabled (filter : Filter) (disabled : DisabledRoles) (role : Role) :
    (filter.setDisabled disabled).rules role = filter.rules role := by
  cases role <;> rfl

end Filter

end PathFilter
