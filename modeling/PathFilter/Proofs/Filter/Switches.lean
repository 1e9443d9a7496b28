import Mathlib.Algebra.GroupWithZero.Nat
import PathFilter.Proofs.Filter.Decision
import PathFilter.Proofs.Filter.Rules

set_option autoImplicit false
set_option relaxedAutoImplicit false

namespace PathFilter.Filter

/-- A copy without reserved rules and without the rules of the roles that are switched off, with
every switch cleared. -/
def stripped (filter : Filter) : Filter :=
  (filter.clear { includes := filter.disabled.includes, excludes := filter.disabled.excludes,
                  ignores := filter.disabled.ignores, reserved := true }).setDisabled .none

private theorem effective?_stripped (filter : Filter) (role : Role) :
    filter.stripped.effective? role = filter.effective? role := by
  obtain ⟨includes, excludes, ignores, reserved, ⟨noIncludes, noExcludes, noIgnores⟩⟩ := filter
  cases role with
  | includes => cases noIncludes <;> rfl
  | excludes => cases noExcludes <;> rfl
  | ignores => cases noIgnores <;> rfl
  | reserved => rfl

/-- A decision, with all it reports, depends on the rules in effect alone. -/
theorem classify_congr {filter other : Filter}
    (effective : ∀ role, filter.effective? role = other.effective? role) (path : Text)
    (options : MatchOptions) : filter.classify path options = other.classify path options := by
  have hask : ∀ role, filter.ask role path options = other.ask role path options := by
    intro role
    rw [ask, ask, effective]
  have hjudge : filter.judge path options = other.judge path options := by
    simp only [judge, hask, effective]
  rw [classify, classify, hjudge]

private theorem has_eq_true_iff (filter : Filter) (roles : RoleSet) :
    filter.has roles = true ↔ ∃ role, roles.contains role = true ∧ filter.rules role ≠ [] := by
  simp [has]

private theorem firstMatch?_map_rule (entries : List RuleEntry) (path : Text)
    (options : MatchOptions) :
    (Rule.firstMatch? (entries.map RuleEntry.rule) path options).map Rule.entry =
      entries.find? fun entry => patternAccepts entry.text path (entry.options.union options) := by
  have hid : Rule.entry ∘ RuleEntry.rule = id := rfl
  rw [Rule.firstMatch?, List.find?_map, Option.map_map, hid, Option.map_id]
  rfl

/-- After every history, switching roles off equals removing their rules: the verdict, the answer
and all events are those of the stripped copy. The filter itself goes on to report every rule that
stands, whatever its switches. -/
theorem classify_stripped (changes : List FilterChange) (path : Text) (options : MatchOptions) :
    let filter := (afterAll changes).value
    filter.stripped.classify path options = filter.classify path options ∧
      filter.stripped.admits path options = filter.admits path options ∧
      (∀ roles, filter.has roles = true ↔
        ∃ role, roles.contains role = true ∧ FilterChange.standing role changes ≠ []) ∧
      (∀ roles, filter.count roles =
        (roles.roles.map fun role => (FilterChange.standing role changes).length).sum) ∧
      ∀ role, (filter.rules role).map Rule.entry = FilterChange.standing role changes ∧
        (Rule.firstMatch? (filter.rules role) path options).map Rule.entry =
          (FilterChange.standing role changes).find? (fun entry =>
            patternAccepts entry.text path (entry.options.union options)) ∧
        (Rule.anyAccepts (filter.rules role) path options = true ↔
          ∃ entry ∈ FilterChange.standing role changes,
            patternAccepts entry.text path (entry.options.union options) = true) := by
  intro filter
  have hrules : ∀ role, filter.rules role =
      (FilterChange.standing role changes).map RuleEntry.rule := rules_afterAll changes
  have hclassify : filter.stripped.classify path options = filter.classify path options :=
    classify_congr (effective?_stripped filter) path options
  refine ⟨hclassify, ?_, ?_, ?_, ?_⟩
  · rw [admits, admits, hclassify]
  · intro roles
    simp only [has_eq_true_iff, hrules, ne_eq, List.map_eq_nil_iff]
  · intro roles
    simp only [count, hrules, List.length_map]
    rfl
  · intro role
    refine ⟨?_, ?_, ?_⟩
    · rw [hrules]
      simp [Function.comp_def]
    · rw [hrules, firstMatch?_map_rule]
    · rw [hrules, Rule.anyAccepts_eq_true_iff]
      constructor
      · rintro ⟨rule, hrule, haccepts⟩
        obtain ⟨entry, hentry, rfl⟩ := List.mem_map.mp hrule
        exact ⟨entry, hentry, haccepts⟩
      · rintro ⟨entry, hentry, haccepts⟩
        exact ⟨entry.rule, List.mem_map_of_mem hentry, haccepts⟩

end PathFilter.Filter
