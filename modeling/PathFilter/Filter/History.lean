import PathFilter.Filter.Load

/-!
Histories of a filter. `afterAll` carries the changes out one after the other; a change that fails
leaves the filter as it was. Beside it stands what a history should leave behind, read off the list
of changes without any filter: `standing` keeps what each change adds unless a later one erases it,
and `switchAfter` follows each switch alone.
-/

set_option autoImplicit false
set_option relaxedAutoImplicit false

namespace PathFilter

inductive FilterChange
  /-- The filter gets a text of its own, by a copy or handed over. -/
  | add (role : Role) (text : Text) (options : MatchOptions)
  | addBorrowed (role : Role) (text : Text) (options : MatchOptions)
  | addStored (role : Role) (text : Text) (options : MatchOptions) (storage : Storage)
  | addCut (role : Role) (text : Text) (length : Nat) (options : MatchOptions) (storage : Storage)
  | addAll (role : Role) (texts : List Text) (options : MatchOptions)
  | addFile (files : Files) (role : Role) (name : FileName) (options : MatchOptions)
  | loadIgnores (source : IgnoreSource) (repository : Text) (options : MatchOptions)
  | clear (roles : RoleSet)
  | reset
  | setDisabled (disabled : DisabledRoles)
  | modifyDisabled (more fewer : DisabledRoles)
  /-- Goes on with a lasting copy. -/
  | deepCopy
  /-- Goes on with a plain copy. -/
  | copy

namespace Filter

def apply (filter : Filter) : FilterChange → Logged Filter
  | .add role text options => filter.add role text options
  | .addBorrowed role text options => filter.addBorrowed role text options
  | .addStored role text options storage => filter.addStored role text options storage
  | .addCut role text length options storage => do
    return (← filter.addCut role text length options storage).toOption.getD filter
  | .addAll role texts options => filter.addAll role texts options
  | .addFile files role name options => do
    return ((← filter.addFile files role name options).toOption.map Prod.fst).getD filter
  | .loadIgnores source repository options => do
    return ((← filter.loadIgnores source repository options).toOption.map Prod.fst).getD filter
  | .clear roles => pure (filter.clear roles)
  | .reset => pure filter.reset
  | .setDisabled disabled => pure (filter.setDisabled disabled)
  | .modifyDisabled more fewer => pure (filter.modifyDisabled more fewer)
  | .deepCopy => pure filter.deepCopy
  | .copy => pure filter

def afterAll (changes : List FilterChange) : Logged Filter := changes.foldlM apply blank

def Reachable (filter : Filter) : Prop := ∃ changes, (afterAll changes).value = filter

end Filter

/-- What tells of a rule how it was added. -/
structure RuleEntry where
  text : Text
  options : MatchOptions
  borrowed : Bool
  deriving DecidableEq, Repr

def Rule.entry (rule : Rule) : RuleEntry := ⟨rule.text, rule.options, rule.borrowed⟩

namespace FilterChange

/-- Entries for some texts that the filter copies. -/
def copies (texts : List Text) (options : MatchOptions) : List RuleEntry :=
  texts.map fun text => ⟨text, options, false⟩

/-- The role that a change adds to and the entries that it adds. -/
def additions : FilterChange → Option (Role × List RuleEntry)
  | .add role text options => some (role, copies [text] options)
  | .addBorrowed role text options => some (role, [⟨text, options, true⟩])
  | .addStored role text options storage => some (role, [⟨text, options, storage = .shallow⟩])
  | .addCut role text length options storage =>
    if storage = .deep ∧ length ≠ 0 then
      (Filter.takeBytes? length text).map fun start => (role, copies [start] options)
    else none
  | .addAll role texts options => some (role, copies texts options)
  | .addFile files role name options =>
    (files.readText name).toOption.map fun text =>
      (role, copies (PatternFile.patterns text) options)
  | .loadIgnores source repository options =>
    (source.ignores repository).value.toOption.map fun texts => (.ignores, copies texts options)
  | _ => none

/-- The entries that a change adds to a role. -/
def addedTo (change : FilterChange) (role : Role) : List RuleEntry :=
  match change.additions with
  | some (target, entries) => if target = role then entries else []
  | none => []

def erases (role : Role) : FilterChange → Bool
  | .clear roles => roles.contains role
  | .reset => true
  | _ => false

def isDeepCopy : FilterChange → Bool
  | .deepCopy => true
  | _ => false

/-- The entries of a role that stand after a history: those of each change that nothing later
erases, with texts of their own if a lasting copy is made later. -/
def standing (role : Role) : List FilterChange → List RuleEntry
  | [] => []
  | change :: later =>
    let kept := if later.any (erases role) then [] else change.addedTo role
    let kept :=
      if later.any isDeepCopy then kept.map fun entry => { entry with borrowed := false } else kept
    kept ++ standing role later

/-- A change that decides on the switches. -/
def setsSwitches : FilterChange → Bool
  | .setDisabled _ | .modifyDisabled .. | .reset => true
  | _ => false

/-- Whether the switch of a role is set after a change, from whether it was set before. -/
def switch (role : Role) (before : Bool) : FilterChange → Bool
  | .setDisabled next => next.isSet role
  | .modifyDisabled more fewer => (before || more.isSet role) && !fewer.isSet role
  | .reset => false
  | _ => before

def switchAfter (role : Role) (changes : List FilterChange) : Bool :=
  changes.foldl (switch role) false

end FilterChange

end PathFilter
