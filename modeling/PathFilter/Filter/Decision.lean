import PathFilter.Filter.Basic

/-!
The decision on a path. Excluding rules are asked first, then including rules if there are any in
effect, then ignoring rules; the first rule that matches ends the questions. Every rule that is
asked is reported.
-/

set_option autoImplicit false
set_option relaxedAutoImplicit false

namespace PathFilter.Filter

/-- Asks rules in order until one matches. -/
def askRules (role : Role) (path : Text) (options : MatchOptions) : List Rule → Logged Bool
  | [] => pure false
  | rule :: rest => do
    let matched := rule.accepts path options
    Logged.emit (.ruleTested path role rule.text matched)
    if matched then pure true else askRules role path options rest

def ask (filter : Filter) (role : Role) (path : Text) (options : MatchOptions) : Logged Bool :=
  match filter.effective? role with
  | none => pure false
  | some rules => askRules role path options rules

/-- The verdict on a path, before it is reported. -/
def judge (filter : Filter) (path : Text) (options : MatchOptions) : Logged Verdict := do
  if ← filter.ask .excludes path options then return .excluded
  match filter.effective? .includes with
  | none => return if ← filter.ask .ignores path options then .ignored else .implied
  | some _ =>
    if ← filter.ask .includes path options then return .included
    return if ← filter.ask .ignores path options then .ignored else .maybe

def classify (filter : Filter) (path : Text) (options : MatchOptions) : Logged Verdict := do
  let verdict ← filter.judge path options
  Logged.emit (.classified path verdict)
  pure verdict

def admits (filter : Filter) (path : Text) (options : MatchOptions) : Logged Bool := do
  return (← filter.classify path options).accepted

def classifyAll (filter : Filter) (paths : List Text) (options : MatchOptions) :
    Logged (List Verdict) :=
  paths.mapM fun path => filter.classify path options

/-- Asking in order finds out whether any rule matches. -/
theorem value_askRules (role : Role) (path : Text) (options : MatchOptions) (rules : List Rule) :
    (askRules role path options rules).value = Rule.anyAccepts rules path options := by
  induction rules with
  | nil => rfl
  | cons rule rest ih =>
    simp only [Rule.anyAccepts, Rule.firstMatch?, List.find?_cons] at ih ⊢
    cases h : rule.accepts path options with
    | true => simp [askRules, h]
    | false => simpa [askRules, h] using ih

end PathFilter.Filter
