import Mathlib.Tactic.SplitIfs
import PathFilter.Filter.Decision

set_option autoImplicit false
set_option relaxedAutoImplicit false

namespace PathFilter

theorem Rule.anyAccepts_eq_true_iff {rules : List Rule} {path : Text} {options : MatchOptions} :
    Rule.anyAccepts rules path options = true ↔
      ∃ rule ∈ rules, rule.accepts path options = true := by
  unfold Rule.anyAccepts Rule.firstMatch?
  rw [List.find?_isSome]

private theorem Rule.anyAccepts_of_perm {rules others : List Rule} (perm : others.Perm rules)
    (path : Text) (options : MatchOptions) :
    Rule.anyAccepts others path options = Rule.anyAccepts rules path options := by
  rw [Bool.eq_iff_iff, anyAccepts_eq_true_iff, anyAccepts_eq_true_iff]
  constructor
  · rintro ⟨rule, hrule, haccepts⟩
    exact ⟨rule, perm.mem_iff.mp hrule, haccepts⟩
  · rintro ⟨rule, hrule, haccepts⟩
    exact ⟨rule, perm.mem_iff.mpr hrule, haccepts⟩

namespace Filter

def hits (filter : Filter) (role : Role) (path : Text) (options : MatchOptions) : Bool :=
  !filter.disabled.isSet role && Rule.anyAccepts (filter.rules role) path options

def isSelective (filter : Filter) : Bool :=
  !filter.disabled.includes && !(filter.rules .includes).isEmpty

theorem value_ask (filter : Filter) {role : Role} (consulted : role ≠ .reserved) (path : Text)
    (options : MatchOptions) :
    (filter.ask role path options).value = filter.hits role path options := by
  simp only [ask, effective?, hits, filter.disabled.disables_eq_isSet consulted]
  cases filter.disabled.isSet role with
  | true => rfl
  | false =>
    cases hrules : filter.rules role with
    | nil => rfl
    | cons rule rest => exact value_askRules role path options (rule :: rest)

theorem effective?_includes (filter : Filter) :
    filter.effective? .includes =
      if filter.isSelective then some (filter.rules .includes) else none := by
  simp only [effective?, isSelective, DisabledRoles.disables]
  by_cases hoff : filter.disabled.includes = true
  · simp [hoff]
  · by_cases hempty : (filter.rules .includes).isEmpty = true
    · simp [hempty]
    · simp [hoff, hempty]

theorem value_judge (filter : Filter) (path : Text) (options : MatchOptions) :
    (filter.judge path options).value =
      if filter.hits .excludes path options then .excluded
      else if filter.isSelective && filter.hits .includes path options then .included
      else if filter.hits .ignores path options then .ignored
      else if filter.isSelective then .maybe else .implied := by
  have hexcludes : (filter.ask .excludes path options).value = filter.hits .excludes path options :=
    value_ask filter (by decide) path options
  have hincludes : (filter.ask .includes path options).value = filter.hits .includes path options :=
    value_ask filter (by decide) path options
  have hignores : (filter.ask .ignores path options).value = filter.hits .ignores path options :=
    value_ask filter (by decide) path options
  rw [judge, Logged.value_bind, hexcludes]
  cases filter.hits .excludes path options with
  | true => rfl
  | false =>
    rw [effective?_includes]
    cases filter.isSelective with
    | false =>
      simp only [Bool.false_eq_true, if_false, Logged.value_bind, Logged.value_pure, hignores,
        Bool.false_and]
    | true =>
      simp only [Bool.false_eq_true, if_false, if_true, Logged.value_bind, hincludes,
        Bool.true_and]
      cases filter.hits .includes path options with
      | true => rfl
      | false =>
        simp only [Bool.false_eq_true, if_false, Logged.value_bind, Logged.value_pure, hignores]

theorem value_classify (filter : Filter) (path : Text) (options : MatchOptions) :
    (filter.classify path options).value = (filter.judge path options).value := rfl

private theorem value_admits (filter : Filter) (path : Text) (options : MatchOptions) :
    (filter.admits path options).value = (filter.classify path options).value.accepted := rfl

/-- Filters with the same hits and the same selectivity give the same verdict. -/
theorem value_classify_congr {filter other : Filter} {path way : Text} {options more : MatchOptions}
    (selective : filter.isSelective = other.isSelective)
    (hits : ∀ role, role ≠ .reserved →
      filter.hits role path options = other.hits role way more) :
    (filter.classify path options).value = (other.classify way more).value := by
  rw [value_classify, value_classify, value_judge, value_judge, selective,
    hits .excludes (by decide), hits .includes (by decide), hits .ignores (by decide)]

/-- The verdict is the one of the table over the sets of rules: excluding hits first, then including
hits of a selective filter, then ignoring hits, then whether the filter is selective. Reserved rules
and the order of the others play no part. -/
theorem classify_eq_table (filter : Filter) (path : Text) (options : MatchOptions) :
    (filter.classify path options).value =
        (if filter.hits .excludes path options then .excluded
        else if filter.isSelective && filter.hits .includes path options then .included
        else if filter.hits .ignores path options then .ignored
        else if filter.isSelective then .maybe else .implied) ∧
      ((filter.admits path options).value = true ↔
        (filter.classify path options).value = .included ∨
          (filter.classify path options).value = .implied) ∧
      ∀ other : Filter, other.disabled = filter.disabled →
        (∀ role, role ≠ .reserved → (other.rules role).Perm (filter.rules role)) →
        (other.classify path options).value = (filter.classify path options).value := by
  refine ⟨?_, ?_, ?_⟩
  · rw [value_classify, value_judge]
  · rw [value_admits]
    cases (filter.classify path options).value <;> simp [Verdict.accepted]
  · intro other hdisabled hperm
    apply value_classify_congr
    · simp only [isSelective, hdisabled, (hperm .includes (by decide)).isEmpty_eq]
    · intro role consulted
      simp only [hits, hdisabled, Rule.anyAccepts_of_perm (hperm role consulted)]

end Filter

end PathFilter
