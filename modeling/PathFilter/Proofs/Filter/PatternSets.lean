import Mathlib.Data.Set.Basic
import PathFilter.Proofs.Filter.Decision
import PathFilter.Proofs.Filter.Rules

/-!
The verdict as a function of sets. A rule is asked about a path under its own options united with
those of the question, so a role takes part in a decision through the pairs of a text and united
options that it holds (`patternsUnder`), and through nothing else: not through their order or
number, the way they were added, or the division of the options between rule and question.
-/

set_option autoImplicit false
set_option relaxedAutoImplicit false

namespace PathFilter

namespace Filter

/-- The patterns of a role with the options under which a question asks them. -/
def patternsUnder (filter : Filter) (role : Role) (options : MatchOptions) :
    Set (Text × MatchOptions) :=
  {pair | ∃ rule ∈ filter.rules role, pair = (rule.text, rule.options.union options)}

def Consults (filter : Filter) (role : Role) : Prop :=
  role ≠ .reserved ∧ filter.disabled.isSet role = false

end Filter

def FilterChange.patternsAdded (role : Role) (changes : List FilterChange) :
    Set (Text × MatchOptions) :=
  {pair | ∃ change ∈ changes, ∃ entry ∈ change.addedTo role, pair = (entry.text, entry.options)}

namespace FilterChange

private theorem effects_of_additions {change : FilterChange}
    (adds : change.additions.isSome = true) (role : Role) :
    change.erases role = false ∧ change.isDeepCopy = false ∧ change.setsSwitches = false := by
  cases change with
  | clear _ | reset | setDisabled _ | modifyDisabled _ _ | deepCopy | copy =>
    exact absurd adds Bool.false_ne_true
  | _ => exact ⟨rfl, rfl, rfl⟩

variable {changes : List FilterChange}

private theorem any_of_additions (adds : ∀ change ∈ changes, change.additions.isSome = true)
    (role : Role) : changes.any (erases role) = false ∧ changes.any isDeepCopy = false := by
  constructor
  · rw [List.any_eq_false]
    intro change hchange
    rw [(effects_of_additions (adds change hchange) role).1]
    exact Bool.false_ne_true
  · rw [List.any_eq_false]
    intro change hchange
    rw [(effects_of_additions (adds change hchange) role).2.1]
    exact Bool.false_ne_true

private theorem keptAfter_of_additions (adds : ∀ change ∈ changes, change.additions.isSome = true)
    (role : Role) (rules : List Rule) : keptAfter changes role rules = rules := by
  obtain ⟨herases, hcopies⟩ := any_of_additions adds role
  rw [keptAfter, herases, hcopies]
  rfl

private theorem standing_of_additions (adds : ∀ change ∈ changes, change.additions.isSome = true)
    (role : Role) : standing role changes = changes.flatMap fun change => change.addedTo role := by
  induction changes with
  | nil => rfl
  | cons change later ih =>
    have hlater : ∀ other ∈ later, other.additions.isSome = true :=
      fun other hother => adds other (List.mem_cons_of_mem change hother)
    obtain ⟨herases, hcopies⟩ := any_of_additions hlater role
    rw [standing, herases, hcopies, ih hlater]
    rfl

end FilterChange

namespace Filter

private theorem disabled_foldlM_of_additions (filter : Filter) {changes : List FilterChange}
    (adds : ∀ change ∈ changes, change.additions.isSome = true) :
    (changes.foldlM apply filter).value.disabled = filter.disabled :=
  disabled_foldlM_of_quiet filter fun change hchange =>
    (FilterChange.effects_of_additions (adds change hchange) .reserved).2.2

private theorem Reachable.foldlM_apply {filter : Filter} (reachable : filter.Reachable)
    (changes : List FilterChange) : (changes.foldlM apply filter).value.Reachable := by
  obtain ⟨before, rfl⟩ := reachable
  exact ⟨before ++ changes, afterAll_append before changes⟩

theorem accepts_eq_patternAccepts {rule : Rule} (compiled : rule.glob = .compile rule.text)
    (path : Text) (options : MatchOptions) :
    rule.accepts path options = patternAccepts rule.text path (rule.options.union options) := by
  rw [Rule.accepts, compiled, patternAccepts]

private theorem Reachable.hits_eq_true_iff {filter : Filter} (reachable : filter.Reachable)
    {role : Role} {path : Text} {options : MatchOptions} :
    filter.hits role path options = true ↔
      filter.disabled.isSet role = false ∧
        ∃ pair ∈ filter.patternsUnder role options, patternAccepts pair.1 path pair.2 = true := by
  rw [hits, Bool.and_eq_true, Bool.not_eq_true', Rule.anyAccepts_eq_true_iff]
  apply and_congr_right
  intro _
  constructor
  · rintro ⟨rule, hrule, haccepts⟩
    rw [accepts_eq_patternAccepts (reachable.glob_eq hrule)] at haccepts
    exact ⟨_, ⟨rule, hrule, rfl⟩, haccepts⟩
  · rintro ⟨_, ⟨rule, hrule, rfl⟩, haccepts⟩
    refine ⟨rule, hrule, ?_⟩
    rw [accepts_eq_patternAccepts (reachable.glob_eq hrule)]
    exact haccepts

private theorem isSelective_eq_true_iff {filter : Filter} (options : MatchOptions) :
    filter.isSelective = true ↔
      filter.disabled.includes = false ∧ (filter.patternsUnder .includes options).Nonempty := by
  rw [isSelective, Bool.and_eq_true, Bool.not_eq_true', Bool.not_eq_true',
    List.isEmpty_eq_false_iff_exists_mem]
  apply and_congr_right
  intro _
  constructor
  · rintro ⟨rule, hrule⟩
    exact ⟨_, rule, hrule, rfl⟩
  · rintro ⟨_, rule, hrule, -⟩
    exact ⟨rule, hrule⟩

private theorem Reachable.value_classify_eq {S T : Filter} (hS : S.Reachable) (hT : T.Reachable)
    (switches : S.disabled = T.disabled) {g h : MatchOptions}
    (sets : ∀ role, S.Consults role → S.patternsUnder role g = T.patternsUnder role h)
    (path : Text) : (S.classify path g).value = (T.classify path h).value := by
  apply value_classify_congr
  · rw [Bool.eq_iff_iff, isSelective_eq_true_iff g, isSelective_eq_true_iff h, ← switches]
    apply and_congr_right
    intro on
    rw [sets .includes ⟨by decide, on⟩]
  · intro role consulted
    rw [Bool.eq_iff_iff, hS.hits_eq_true_iff, hT.hits_eq_true_iff, ← switches]
    apply and_congr_right
    intro on
    rw [sets role ⟨consulted, on⟩]

private theorem patternsUnder_union (filter : Filter) (role : Role) (moved options : MatchOptions) :
    filter.patternsUnder role (moved.union options) =
      (fun pair => (pair.1, pair.2.union options)) '' filter.patternsUnder role moved := by
  ext pair
  constructor
  · rintro ⟨rule, hrule, rfl⟩
    refine ⟨(rule.text, rule.options.union moved), ⟨rule, hrule, rfl⟩, ?_⟩
    simp only [MatchOptions.union_assoc]
  · rintro ⟨_, ⟨rule, hrule, rfl⟩, rfl⟩
    refine ⟨rule, hrule, ?_⟩
    simp only [MatchOptions.union_assoc]

private theorem patternsUnder_eq_image (filter : Filter) (role : Role) (options : MatchOptions) :
    filter.patternsUnder role options =
      (fun pair => (pair.1, pair.2.union options)) '' filter.patternsUnder role .none := by
  rw [← patternsUnder_union, MatchOptions.union_comm, MatchOptions.union_none]

private theorem patternsUnder_of_additions (filter : Filter) {changes : List FilterChange}
    (adds : ∀ change ∈ changes, change.additions.isSome = true) (role : Role) :
    (changes.foldlM apply filter).value.patternsUnder role .none =
      filter.patternsUnder role .none ∪ FilterChange.patternsAdded role changes := by
  have hrules : (changes.foldlM apply filter).value.rules role = filter.rules role ++
      (changes.flatMap fun change => change.addedTo role).map RuleEntry.rule := by
    rw [rules_foldlM_apply, FilterChange.keptAfter_of_additions adds,
      FilterChange.standing_of_additions adds]
  ext pair
  simp only [patternsUnder, FilterChange.patternsAdded, hrules, MatchOptions.union_none,
    Set.mem_union, Set.mem_ofPred_eq, List.mem_append, List.mem_map, List.mem_flatMap]
  constructor
  · rintro ⟨rule, hold | ⟨entry, ⟨change, hchange, hentry⟩, rfl⟩, rfl⟩
    · exact Or.inl ⟨rule, hold, rfl⟩
    · exact Or.inr ⟨change, hchange, entry, hentry, rfl⟩
  · rintro (⟨rule, hold, rfl⟩ | ⟨change, hchange, entry, hentry, rfl⟩)
    · exact ⟨rule, Or.inl hold, rfl⟩
    · exact ⟨entry.rule, Or.inr ⟨entry, ⟨change, hchange, hentry⟩, rfl⟩, rfl⟩

/-- The verdict is a function of the switches and of the sets of patterns under united options.
Rules added in another order or number, interleaved with those of other roles or stored in another
way do not change it, nor do rules of a role that is not consulted, nor options that move between
the rules and the question. -/
theorem classify_of_patternsUnder :
    (∀ {S T : Filter} {g h : MatchOptions} (path : Text), S.Reachable → T.Reachable →
      S.disabled = T.disabled →
      (∀ role, S.Consults role → S.patternsUnder role g = T.patternsUnder role h) →
      (S.classify path g).value = (T.classify path h).value) ∧
    (∀ {S : Filter} {changes others : List FilterChange} (path : Text) (options : MatchOptions),
      S.Reachable → (∀ change ∈ changes ++ others, change.additions.isSome = true) →
      (∀ role, S.Consults role →
        FilterChange.patternsAdded role changes = FilterChange.patternsAdded role others) →
      ((changes.foldlM apply S).value.classify path options).value =
        ((others.foldlM apply S).value.classify path options).value) ∧
    (∀ {S T : Filter} {moved : MatchOptions} (path : Text) (options : MatchOptions),
      S.Reachable → T.Reachable → S.disabled = T.disabled →
      (∀ role, S.Consults role → T.patternsUnder role .none = S.patternsUnder role moved) →
      (T.classify path options).value = (S.classify path (moved.union options)).value) := by
  refine ⟨?_, ?_, ?_⟩
  · intro S T g h path hS hT switches sets
    exact hS.value_classify_eq hT switches sets path
  · intro S changes others path options hS adds sets
    have hchanges : ∀ change ∈ changes, change.additions.isSome = true :=
      fun change hchange => adds change (List.mem_append_left others hchange)
    have hothers : ∀ change ∈ others, change.additions.isSome = true :=
      fun change hchange => adds change (List.mem_append_right changes hchange)
    have hdisabled := S.disabled_foldlM_of_additions hchanges
    have hsame := S.disabled_foldlM_of_additions hothers
    apply (hS.foldlM_apply changes).value_classify_eq (hS.foldlM_apply others)
    · rw [hdisabled, hsame]
    · intro role consulted
      have hrole : S.Consults role := ⟨consulted.1, hdisabled ▸ consulted.2⟩
      rw [patternsUnder_eq_image, patternsUnder_of_additions S hchanges, sets role hrole,
        patternsUnder_eq_image (others.foldlM apply S).value, patternsUnder_of_additions S hothers]
  · intro S T moved path options hS hT switches sets
    apply hT.value_classify_eq hS switches.symm
    intro role consulted
    have hrole : S.Consults role := ⟨consulted.1, switches ▸ consulted.2⟩
    rw [patternsUnder_eq_image, sets role hrole, patternsUnder_union]

theorem classify_of_patternsUnder_moved :
    let S := (afterAll [.add .includes "*.c".toList { anywhere := true },
      .add .excludes "gen".toList { anywhere := true }]).value
    let T := (afterAll [.addAll .excludes ["gen".toList] { anywhere := true },
      .add .reserved "**".toList .none, .addBorrowed .excludes "gen".toList .none,
      .addStored .includes "*.c".toList .none .shallow]).value
    let changes : List FilterChange :=
      [.add .ignores "o".toList .none, .add .reserved "r".toList .none]
    let others : List FilterChange :=
      [.addBorrowed .ignores "o".toList .none, .addAll .ignores ["o".toList] .none]
    (S.Reachable ∧ T.Reachable ∧ S.disabled = T.disabled ∧
      ∀ role, S.Consults role →
        S.patternsUnder role .none = T.patternsUnder role { anywhere := true }) ∧
      ((∀ change ∈ changes ++ others, change.additions.isSome = true) ∧
        ∀ role, S.Consults role →
          FilterChange.patternsAdded role changes = FilterChange.patternsAdded role others) ∧
      (S.classify "gen/x.c".toList .none).value =
        (T.classify "gen/x.c".toList { anywhere := true }).value ∧
      ((changes.foldlM apply S).value.classify "o".toList .none).value =
        ((others.foldlM apply S).value.classify "o".toList .none).value ∧
      (S.classify "x.c".toList { belowFolders := true }).value =
        (T.classify "x.c".toList
          (MatchOptions.union { anywhere := true } { belowFolders := true })).value := by
  intro S T changes others
  have hS : S.Reachable := ⟨_, rfl⟩
  have hT : T.Reachable := ⟨_, rfl⟩
  have hoffS : S.disabled = .none :=
    disabled_foldlM_of_additions blank (by simp [FilterChange.additions])
  have hoffT : T.disabled = .none :=
    disabled_foldlM_of_additions blank (by simp [FilterChange.additions])
  have switches : S.disabled = T.disabled := hoffS.trans hoffT.symm
  have sets : ∀ role, S.Consults role →
      S.patternsUnder role .none = T.patternsUnder role { anywhere := true } := by
    intro role consulted
    ext pair
    cases role with
    | reserved => exact absurd rfl consulted.1
    | _ =>
      simp [S, T, patternsUnder, rules_afterAll, FilterChange.standing, FilterChange.addedTo,
        FilterChange.additions, FilterChange.copies, FilterChange.erases, FilterChange.isDeepCopy,
        RuleEntry.rule, MatchOptions.union, MatchOptions.zip, MatchOptions.none]
  have adds : ∀ change ∈ changes ++ others, change.additions.isSome = true := by
    simp [changes, others, FilterChange.additions]
  have added : ∀ role, S.Consults role →
      FilterChange.patternsAdded role changes = FilterChange.patternsAdded role others := by
    intro role consulted
    cases role with
    | reserved => exact absurd rfl consulted.1
    | _ =>
      simp [FilterChange.patternsAdded, changes, others, FilterChange.addedTo,
        FilterChange.additions, FilterChange.copies]
  refine ⟨⟨hS, hT, switches, sets⟩, ⟨adds, added⟩, ?_, ?_, ?_⟩
  · exact classify_of_patternsUnder.1 _ hS hT switches sets
  · exact classify_of_patternsUnder.2.1 _ _ hS adds added
  · exact classify_of_patternsUnder.2.2 _ _ hT hS switches.symm fun role consulted =>
      sets role ⟨consulted.1, switches ▸ consulted.2⟩

end Filter

end PathFilter
