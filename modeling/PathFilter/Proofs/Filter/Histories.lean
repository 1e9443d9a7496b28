import Mathlib.Algebra.GroupWithZero.Nat
import PathFilter.Proofs.Filter.Rules

set_option autoImplicit false
set_option relaxedAutoImplicit false

namespace PathFilter

def Logged.error? {ε α : Type} (result : Logged (Except ε α)) : Option ε :=
  match result.value with
  | .error error => some error
  | .ok _ => none

namespace FilterChange

/-- A change that brings rules, unless the filter refuses it. -/
def isAddition : FilterChange → Bool
  | .add .. | .addBorrowed .. | .addStored .. | .addCut .. | .addAll .. | .addFile ..
  | .loadIgnores .. => true
  | .clear _ | .reset | .setDisabled _ | .modifyDisabled .. | .deepCopy | .copy => false

end FilterChange

namespace Filter

/-- The error with which a filter refuses a change, if it does. -/
def refusal? (filter : Filter) : FilterChange → Option FilterError
  | .addCut role text length options storage =>
    (filter.addCut role text length options storage).error?
  | .addFile files role name options => (filter.addFile files role name options).error?
  | .loadIgnores source repository options => (filter.loadIgnores source repository options).error?
  | _ => none

private theorem refusal?_addCut (filter : Filter) (role : Role) (text : Text) (length : Nat)
    (options : MatchOptions) (storage : Storage) :
    filter.refusal? (.addCut role text length options storage) = none ↔
      (storage = .deep ∧ length ≠ 0) ∧ (takeBytes? length text).isSome = true := by
  cases storage with
  | shallow => simp [refusal?, addCut, Logged.error?]
  | deep =>
    by_cases hzero : length = 0
    · simp [refusal?, addCut, Logged.error?, hzero]
    · cases htake : takeBytes? length text <;>
        simp [refusal?, addCut, Logged.error?, hzero, htake]

private theorem refusal?_addFile (filter : Filter) (files : Files) (role : Role) (name : FileName)
    (options : MatchOptions) :
    filter.refusal? (.addFile files role name options) = none ↔
      (files.readText name).toOption.isSome = true := by
  cases hread : files.readText name <;>
    simp [refusal?, addFile, Logged.error?, hread, Except.toOption]

private theorem refusal?_loadIgnores (filter : Filter) (source : IgnoreSource) (repository : Text)
    (options : MatchOptions) :
    filter.refusal? (.loadIgnores source repository options) = none ↔
      (source.ignores repository).value.toOption.isSome = true := by
  cases hread : (source.ignores repository).value <;>
    simp [refusal?, loadIgnores, Logged.error?, hread, Except.toOption]

private theorem additions_isSome_iff (filter : Filter) (change : FilterChange) :
    change.additions.isSome = true ↔ change.isAddition = true ∧ filter.refusal? change = none := by
  cases change with
  | addCut role text length options storage =>
    rw [refusal?_addCut, FilterChange.additions]
    by_cases hcut : storage = .deep ∧ length ≠ 0
    · simp [hcut, FilterChange.isAddition]
    · simp [hcut]
  | addFile files role name options =>
    rw [refusal?_addFile]
    simp [FilterChange.additions, FilterChange.isAddition]
  | loadIgnores source repository options =>
    rw [refusal?_loadIgnores]
    simp [FilterChange.additions, FilterChange.isAddition]
  | _ => simp [FilterChange.additions, FilterChange.isAddition, refusal?]

private theorem value_apply_of_refused {filter : Filter} {change : FilterChange}
    (refused : (filter.refusal? change).isSome = true) : (filter.apply change).value = filter := by
  cases change with
  | addCut role text length options storage =>
    rw [apply_addCut]
    split_ifs with hcut
    · cases htake : takeBytes? length text with
      | none => rfl
      | some start =>
        have haccepted : filter.refusal? (.addCut role text length options storage) = none :=
          (refusal?_addCut ..).mpr ⟨hcut, by rw [htake]; rfl⟩
        rw [haccepted] at refused
        exact absurd refused Bool.false_ne_true
    · rfl
  | addFile files role name options =>
    rw [apply_addFile]
    cases hread : files.readText name with
    | error failure => rfl
    | ok text => simp [refusal?, addFile, Logged.error?, hread] at refused
  | loadIgnores source repository options =>
    rw [apply_loadIgnores]
    cases hread : (source.ignores repository).value with
    | error cause => rfl
    | ok texts => simp [refusal?, loadIgnores, Logged.error?, hread] at refused
  | _ => exact absurd refused Bool.false_ne_true

private theorem count_eq_sum (filter : Filter) (roles : RoleSet) :
    filter.count roles =
      (if roles.includes then (filter.rules .includes).length else 0) +
        (if roles.excludes then (filter.rules .excludes).length else 0) +
        (if roles.ignores then (filter.rules .ignores).length else 0) +
        (if roles.reserved then (filter.rules .reserved).length else 0) := by
  rcases roles with ⟨includes, excludes, ignores, reserved⟩
  cases includes <;> cases excludes <;> cases ignores <;> cases reserved <;>
    simp [count, RoleSet.roles, Role.all, RoleSet.contains, List.filter_cons, Nat.add_assoc]

private theorem value_afterAll_concat (before : List FilterChange) (change : FilterChange) :
    (afterAll (before ++ [change])).value = ((afterAll before).value.apply change).value := by
  rw [afterAll_append, Logged.value_foldlM]
  rfl

private theorem has_eq_true_iff_count_pos (filter : Filter) (roles : RoleSet) :
    filter.has roles = true ↔ 0 < filter.count roles := by
  have hcount : filter.count roles =
      (roles.roles.map fun role => (filter.rules role).length).sum := rfl
  rw [has, hcount, List.sum_pos_iff_exists_pos_nat, List.any_eq_true]
  constructor
  · rintro ⟨role, hrole, hrules⟩
    exact ⟨_, List.mem_map_of_mem hrole, List.length_pos_iff.mpr (by simpa using hrules)⟩
  · rintro ⟨_, hlength, hpos⟩
    obtain ⟨role, hrole, rfl⟩ := List.mem_map.mp hlength
    exact ⟨role, hrole, by simpa using List.ne_nil_of_length_pos hpos⟩

/-- After every history a role holds the entries that stand, in order and with the storage that they
have by then. A switch is set as the changes that decide on the switches left it, one after the
other, and no other change touches it: a modification sets it if it was set or is among the first
switches given, unless it is among the others. Numbers of rules count the entries of the roles asked
for. The additions of a history are those of its changes that the filter of that moment does not
refuse, and a refused change leaves that filter as it is. -/
theorem entries_after_history (changes : List FilterChange) :
    let filter := (afterAll changes).value
    (changes.foldlM apply blank.deepCopy).value = filter ∧
      (∀ role, (filter.rules role).map Rule.entry = FilterChange.standing role changes) ∧
      (∀ role, filter.disabled.isSet role = FilterChange.switchAfter role changes) ∧
      (∀ before later, changes = before ++ later →
        (∀ change ∈ later, change.setsSwitches = false) →
        filter.disabled = (afterAll before).value.disabled) ∧
      (∀ roles : RoleSet,
        filter.count roles =
          (if roles.includes then (FilterChange.standing .includes changes).length else 0) +
            (if roles.excludes then (FilterChange.standing .excludes changes).length else 0) +
            (if roles.ignores then (FilterChange.standing .ignores changes).length else 0) +
            (if roles.reserved then (FilterChange.standing .reserved changes).length else 0) ∧
        (filter.has roles = true ↔ 0 < filter.count roles)) ∧
      ∀ before change later, changes = before ++ change :: later →
        let moment := (afterAll before).value
        (∀ role more fewer, change = .modifyDisabled more fewer →
          ((afterAll (before ++ [change])).value.disabled.isSet role = true ↔
            (moment.disabled.isSet role = true ∨ more.isSet role = true) ∧
              fewer.isSet role = false)) ∧
        (change.additions.isSome = true ↔
          change.isAddition = true ∧ moment.refusal? change = none) ∧
        ((moment.refusal? change).isSome = true →
          (afterAll (before ++ [change])).value = moment) := by
  intro filter
  have hrules : ∀ role, filter.rules role =
      (FilterChange.standing role changes).map RuleEntry.rule := rules_afterAll changes
  refine ⟨rfl, ?_, isSet_afterAll changes, ?_, ?_, ?_⟩
  · intro role
    rw [hrules, List.map_map]
    exact List.map_id _
  · rintro before later rfl quiet
    simp only [filter, afterAll_append]
    exact disabled_foldlM_of_quiet _ quiet
  · intro roles
    refine ⟨?_, has_eq_true_iff_count_pos filter roles⟩
    rw [count_eq_sum]
    simp only [hrules, List.length_map]
  · intro before change later _ moment
    have hstep : (afterAll (before ++ [change])).value = (moment.apply change).value :=
      value_afterAll_concat before change
    refine ⟨?_, additions_isSome_iff moment change, ?_⟩
    · rintro role more fewer rfl
      rw [hstep, isSet_apply, FilterChange.switch]
      simp
    · intro refused
      rw [hstep, value_apply_of_refused refused]

/-- A borrowed rule, a refused cut that leaves the switches and the rules alone, and a lasting copy,
behind a modification that names one switch on both sides. -/
theorem entries_after_history_refused :
    let change : FilterChange :=
      .modifyDisabled { includes := true, ignores := true } { ignores := true }
    let before : List FilterChange := [.addBorrowed .includes "a".toList .none, change]
    let cut : FilterChange := .addCut .includes "bc".toList 1 .none .shallow
    let filter := (afterAll (before ++ [cut, .deepCopy])).value
    (filter.rules .includes).map Rule.entry = [⟨"a".toList, .none, false⟩] ∧
      filter.disabled = (afterAll before).value.disabled ∧
      ((afterAll before).value.disabled.isSet .includes = true ∧
        (afterAll before).value.disabled.isSet .ignores ≠ true) ∧
      (afterAll (before ++ [cut])).value = (afterAll before).value := by
  intro change before cut filter
  obtain ⟨-, hentries, -, hquiet, -, hmoment⟩ := entries_after_history (before ++ [cut, .deepCopy])
  have hchange := (hmoment [.addBorrowed .includes "a".toList .none] change [cut, .deepCopy] rfl).1
  refine ⟨hentries .includes, hquiet before [cut, .deepCopy] rfl (by decide), ⟨?_, ?_⟩, ?_⟩
  · exact (hchange .includes _ _ rfl).mpr ⟨.inr rfl, rfl⟩
  · exact fun h => absurd ((hchange .ignores _ _ rfl).mp h).2 (by decide)
  · exact (hmoment before cut [.deepCopy] rfl).2.2 rfl

end Filter

end PathFilter
