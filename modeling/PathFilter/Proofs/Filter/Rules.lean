import Mathlib.Tactic.SplitIfs
import PathFilter.Filter.History

/-!
The rules of a filter after a history. A change keeps or drops the rules that were there and appends
its own (`rules_apply`), and each switch depends on that switch before it alone (`isSet_apply`).
Over a whole history the rules of a role are those that stand, each with its own text compiled
(`rules_afterAll`).
-/

set_option autoImplicit false
set_option relaxedAutoImplicit false

namespace PathFilter

namespace Logged

theorem value_foldlM {α β : Type} (step : β → α → Logged β) (start : β) (items : List α) :
    (items.foldlM step start).value =
      items.foldl (fun state item => (step state item).value) start := by
  induction items generalizing start with
  | nil => rfl
  | cons item items ih =>
    rw [List.foldlM_cons, value_bind, List.foldl_cons]
    exact ih _

end Logged

def RuleEntry.rule (entry : RuleEntry) : Rule :=
  ⟨entry.text, entry.options, entry.borrowed, .compile entry.text⟩

def RuleEntry.owned (entry : RuleEntry) : RuleEntry := { entry with borrowed := false }

@[simp] theorem RuleEntry.entry_rule (entry : RuleEntry) : entry.rule.entry = entry := rfl

@[simp] theorem RuleEntry.rule_owned (entry : RuleEntry) :
    entry.rule.owned = entry.owned.rule := rfl

namespace FilterChange

private theorem switch_of_quiet {change : FilterChange} (quiet : change.setsSwitches = false)
    (role : Role) (before : Bool) : change.switch role before = before := by
  cases change with
  | setDisabled _ | modifyDisabled _ _ | reset => exact absurd quiet.symm Bool.false_ne_true
  | _ => rfl

def kept (change : FilterChange) (role : Role) (rules : List Rule) : List Rule :=
  if change.erases role then [] else if change.isDeepCopy then rules.map Rule.owned else rules

/-- What a history leaves of the rules of a role. -/
def keptAfter (changes : List FilterChange) (role : Role) (rules : List Rule) : List Rule :=
  if changes.any (erases role) then []
  else if changes.any isDeepCopy then rules.map Rule.owned else rules

private theorem keptAfter_cons (change : FilterChange) (later : List FilterChange) (role : Role)
    (rules : List Rule) :
    keptAfter (change :: later) role rules = keptAfter later role (change.kept role rules) := by
  unfold keptAfter kept
  rw [List.any_cons, List.any_cons]
  cases later.any (erases role) <;> cases later.any isDeepCopy <;> cases change.erases role <;>
    cases change.isDeepCopy <;> simp [Function.comp_def, Rule.owned]

private theorem keptAfter_append (changes : List FilterChange) (role : Role)
    (left right : List Rule) :
    keptAfter changes role (left ++ right) =
      keptAfter changes role left ++ keptAfter changes role right := by
  unfold keptAfter
  split_ifs <;> simp

/-- What stands after a change and a history is what the history keeps of the change's entries, and
what stands after the history. -/
theorem map_rule_standing_cons (change : FilterChange) (later : List FilterChange) (role : Role) :
    (standing role (change :: later)).map RuleEntry.rule =
      keptAfter later role ((change.addedTo role).map RuleEntry.rule) ++
        (standing role later).map RuleEntry.rule := by
  rw [standing, List.map_append]
  congr 1
  unfold keptAfter
  split_ifs <;> simp [Function.comp_def, RuleEntry.owned]

private theorem map_rule_addedTo_of_some {change : FilterChange} {target : Role}
    {entries : List RuleEntry} (h : change.additions = some (target, entries)) (role : Role) :
    (change.addedTo role).map RuleEntry.rule =
      if target = role then entries.map RuleEntry.rule else [] := by
  simp only [addedTo, h, apply_ite (List.map RuleEntry.rule)]
  rfl

private theorem append_addedTo_of_none {change : FilterChange} (h : change.additions = none)
    (role : Role) (rules : List Rule) :
    rules ++ (change.addedTo role).map RuleEntry.rule = rules := by
  simp only [addedTo, h]
  exact List.append_nil rules

end FilterChange

namespace Filter

theorem rules_push (filter : Filter) (role other : Role) (rule : Rule) :
    (filter.push role rule).value.rules other =
      filter.rules other ++ if role = other then [rule] else [] := by
  rw [value_push, rules_withRules]
  split_ifs with heq
  · rw [heq]
  · rw [List.append_nil]

theorem rules_addAll (filter : Filter) (role other : Role) (texts : List Text)
    (options : MatchOptions) :
    (filter.addAll role texts options).value.rules other =
      filter.rules other ++
        if role = other then (FilterChange.copies texts options).map RuleEntry.rule else [] := by
  induction texts generalizing filter with
  | nil => simp [addAll, FilterChange.copies]
  | cons text texts ih =>
    have hstep : (filter.addAll role (text :: texts) options).value =
        ((filter.push role (.own text options)).value.addAll role texts options).value := rfl
    rw [hstep, ih, rules_push, List.append_assoc]
    split_ifs <;> rfl

theorem disabled_addAll (filter : Filter) (role : Role) (texts : List Text)
    (options : MatchOptions) :
    (filter.addAll role texts options).value.disabled = filter.disabled := by
  induction texts generalizing filter with
  | nil => rfl
  | cons text texts ih =>
    have hstep : (filter.addAll role (text :: texts) options).value =
        ((filter.push role (.own text options)).value.addAll role texts options).value := rfl
    rw [hstep, ih, value_push, disabled_withRules]

theorem apply_addCut (filter : Filter) (role : Role) (text : Text) (length : Nat)
    (options : MatchOptions) (storage : Storage) :
    (filter.apply (.addCut role text length options storage)).value =
      if storage = .deep ∧ length ≠ 0 then
        match takeBytes? length text with
        | none => filter
        | some start => (filter.push role (.own start options)).value
      else filter := by
  cases storage with
  | shallow => rfl
  | deep =>
    simp only [apply, addCut]
    by_cases hzero : length = 0
    · simp [hzero, Except.toOption]
    · cases htake : takeBytes? length text <;> simp [hzero, Except.toOption, add]

theorem apply_addFile (filter : Filter) (files : Files) (role : Role) (name : FileName)
    (options : MatchOptions) :
    (filter.apply (.addFile files role name options)).value =
      match files.readText name with
      | .error _ => filter
      | .ok text => (filter.addAll role (PatternFile.patterns text) options).value := by
  cases hread : files.readText name <;> simp [apply, addFile, hread, Except.toOption]

theorem apply_loadIgnores (filter : Filter) (source : IgnoreSource) (repository : Text)
    (options : MatchOptions) :
    (filter.apply (.loadIgnores source repository options)).value =
      match (source.ignores repository).value with
      | .error _ => filter
      | .ok texts => (filter.addAll .ignores texts options).value := by
  cases hread : (source.ignores repository).value <;>
    simp [apply, loadIgnores, hread, Except.toOption]

private theorem rules_apply (filter : Filter) (change : FilterChange) (role : Role) :
    (filter.apply change).value.rules role =
      change.kept role (filter.rules role) ++ (change.addedTo role).map RuleEntry.rule := by
  cases change with
  | add target text options =>
    rw [FilterChange.map_rule_addedTo_of_some rfl]
    exact rules_push filter target role (.own text options)
  | addBorrowed target text options =>
    rw [FilterChange.map_rule_addedTo_of_some rfl]
    exact rules_push filter target role (.borrow text options)
  | addStored target text options storage =>
    rw [FilterChange.map_rule_addedTo_of_some rfl]
    cases storage with
    | deep => exact rules_push filter target role (.own text options)
    | shallow => exact rules_push filter target role (.borrow text options)
  | addCut target text length options storage =>
    rw [apply_addCut]
    split_ifs with hcut
    · cases htake : takeBytes? length text with
      | none =>
        rw [FilterChange.append_addedTo_of_none (by simp [FilterChange.additions, hcut, htake])]
        rfl
      | some start =>
        have hadds : (FilterChange.addCut target text length options storage).additions =
            some (target, FilterChange.copies [start] options) := by
          simp [FilterChange.additions, hcut, htake]
        rw [FilterChange.map_rule_addedTo_of_some hadds]
        exact rules_push filter target role (.own start options)
    · have hadds : (FilterChange.addCut target text length options storage).additions = none :=
        if_neg hcut
      rw [FilterChange.append_addedTo_of_none hadds]
      rfl
  | addAll target texts options =>
    rw [FilterChange.map_rule_addedTo_of_some rfl]
    exact rules_addAll filter target role texts options
  | addFile files target name options =>
    rw [apply_addFile]
    cases hread : files.readText name with
    | error failure =>
      rw [FilterChange.append_addedTo_of_none
        (by simp [FilterChange.additions, hread, Except.toOption])]
      rfl
    | ok text =>
      have hadds : (FilterChange.addFile files target name options).additions =
          some (target, FilterChange.copies (PatternFile.patterns text) options) := by
        simp [FilterChange.additions, hread, Except.toOption]
      rw [FilterChange.map_rule_addedTo_of_some hadds]
      exact rules_addAll filter target role (PatternFile.patterns text) options
  | loadIgnores source repository options =>
    rw [apply_loadIgnores]
    cases hread : (source.ignores repository).value with
    | error cause =>
      rw [FilterChange.append_addedTo_of_none
        (by simp [FilterChange.additions, hread, Except.toOption])]
      rfl
    | ok texts =>
      have hadds : (FilterChange.loadIgnores source repository options).additions =
          some (.ignores, FilterChange.copies texts options) := by
        simp [FilterChange.additions, hread, Except.toOption]
      rw [FilterChange.map_rule_addedTo_of_some hadds]
      exact rules_addAll filter .ignores role texts options
  | clear roles =>
    rw [FilterChange.append_addedTo_of_none rfl]
    exact rules_mapRules _ filter role
  | reset =>
    rw [FilterChange.append_addedTo_of_none rfl]
    exact (rules_setDisabled _ _ role).trans ((rules_mapRules _ filter role).trans
      (if_pos (RoleSet.contains_full role)))
  | setDisabled disabled =>
    rw [FilterChange.append_addedTo_of_none rfl]
    exact rules_setDisabled filter disabled role
  | modifyDisabled more fewer =>
    rw [FilterChange.append_addedTo_of_none rfl]
    exact rules_setDisabled filter _ role
  | deepCopy =>
    rw [FilterChange.append_addedTo_of_none rfl]
    exact rules_mapRules _ filter role
  | copy =>
    rw [FilterChange.append_addedTo_of_none rfl]
    rfl

private theorem disabled_apply_of_quiet (filter : Filter) {change : FilterChange}
    (quiet : change.setsSwitches = false) :
    (filter.apply change).value.disabled = filter.disabled := by
  cases change with
  | setDisabled _ | modifyDisabled _ _ | reset => exact absurd quiet.symm Bool.false_ne_true
  | add target text options => exact disabled_withRules filter target _
  | addBorrowed target text options => exact disabled_withRules filter target _
  | addStored target text options storage =>
    cases storage <;> exact disabled_withRules filter target _
  | addCut target text length options storage =>
    rw [apply_addCut]
    split_ifs
    · cases takeBytes? length text with
      | none => rfl
      | some start => exact disabled_withRules filter target _
    · rfl
  | addAll target texts options => exact disabled_addAll filter target texts options
  | addFile files target name options =>
    rw [apply_addFile]
    cases files.readText name with
    | error failure => rfl
    | ok text => exact disabled_addAll filter target _ options
  | loadIgnores source repository options =>
    rw [apply_loadIgnores]
    cases (source.ignores repository).value with
    | error cause => rfl
    | ok texts => exact disabled_addAll filter .ignores texts options
  | clear roles => rfl
  | deepCopy => rfl
  | copy => rfl

theorem isSet_apply (filter : Filter) (change : FilterChange) (role : Role) :
    (filter.apply change).value.disabled.isSet role =
      change.switch role (filter.disabled.isSet role) := by
  by_cases quiet : change.setsSwitches = false
  · rw [disabled_apply_of_quiet filter quiet, FilterChange.switch_of_quiet quiet]
  · cases change with
    | setDisabled next => rfl
    | modifyDisabled more fewer =>
      have hunion := DisabledRoles.isSet_union filter.disabled more role
      exact (DisabledRoles.isSet_diff _ fewer role).trans (by rw [hunion]; rfl)
    | reset => exact DisabledRoles.isSet_none role
    | _ => exact absurd rfl quiet

theorem rules_foldlM_apply (filter : Filter) (changes : List FilterChange) (role : Role) :
    (changes.foldlM apply filter).value.rules role =
      FilterChange.keptAfter changes role (filter.rules role) ++
        (FilterChange.standing role changes).map RuleEntry.rule := by
  rw [Logged.value_foldlM]
  induction changes generalizing filter with
  | nil => simp [FilterChange.keptAfter, FilterChange.standing]
  | cons change later ih =>
    rw [List.foldl_cons, ih, rules_apply, FilterChange.keptAfter_append,
      ← FilterChange.keptAfter_cons, FilterChange.map_rule_standing_cons, List.append_assoc]

private theorem isSet_foldlM_apply (filter : Filter) (changes : List FilterChange) (role : Role) :
    (changes.foldlM apply filter).value.disabled.isSet role =
      changes.foldl (FilterChange.switch role) (filter.disabled.isSet role) := by
  rw [Logged.value_foldlM]
  induction changes generalizing filter with
  | nil => rfl
  | cons change later ih => rw [List.foldl_cons, ih, isSet_apply, List.foldl_cons]

theorem disabled_foldlM_of_quiet (filter : Filter) {changes : List FilterChange}
    (quiet : ∀ change ∈ changes, change.setsSwitches = false) :
    (changes.foldlM apply filter).value.disabled = filter.disabled := by
  rw [Logged.value_foldlM]
  induction changes generalizing filter with
  | nil => rfl
  | cons change later ih =>
    have hlater : ∀ other ∈ later, other.setsSwitches = false :=
      fun other hother => quiet other (List.mem_cons_of_mem change hother)
    rw [List.foldl_cons, ih _ hlater,
      disabled_apply_of_quiet filter (quiet change List.mem_cons_self)]

/-- The rules of a filter are those that stand after its history. -/
theorem rules_afterAll (changes : List FilterChange) (role : Role) :
    (afterAll changes).value.rules role =
      (FilterChange.standing role changes).map RuleEntry.rule := by
  have hblank : FilterChange.keptAfter changes role (blank.rules role) = [] := by
    cases role <;> simp [FilterChange.keptAfter, blank, rules]
  rw [afterAll, rules_foldlM_apply, hblank, List.nil_append]

theorem afterAll_append (before later : List FilterChange) :
    (afterAll (before ++ later)).value = (later.foldlM apply (afterAll before).value).value := by
  rw [afterAll, List.foldlM_append, Logged.value_bind]
  rfl

theorem isSet_afterAll (changes : List FilterChange) (role : Role) :
    (afterAll changes).value.disabled.isSet role = FilterChange.switchAfter role changes := by
  rw [afterAll, isSet_foldlM_apply]
  exact congrArg (changes.foldl (FilterChange.switch role)) (DisabledRoles.isSet_none role)

theorem Reachable.glob_eq {filter : Filter} (reachable : filter.Reachable) {role : Role}
    {rule : Rule} (hrule : rule ∈ filter.rules role) : rule.glob = .compile rule.text := by
  obtain ⟨changes, rfl⟩ := reachable
  rw [rules_afterAll] at hrule
  obtain ⟨entry, -, rfl⟩ := List.mem_map.mp hrule
  rfl

end Filter

end PathFilter
