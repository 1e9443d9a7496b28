import Mathlib.Data.List.Forall2
import PathFilter.Proofs.Filter.PatternSets

/-!
Equal filters decide alike. Rules are compared by text and options while they answer through the
glob that they carry, so equality of filters says something about decisions because every rule of a
filter carries its own text compiled, whatever it went through since it was added.

Filters whose rules answer two questions alike, one by one, come to the same verdict, and for one
path they ask the same rules and report the same events (`value_classify_of_alike`,
`classify_of_alike`).
-/

set_option autoImplicit false
set_option relaxedAutoImplicit false

namespace PathFilter

namespace Rule

def pattern (rule : Rule) : Text × MatchOptions := (rule.text, rule.options)

def Compiled (rule : Rule) : Prop := rule.glob = .compile rule.text

/-- Two rules of one text that give two questions the same answer. -/
def Alike (path way : Text) (options more : MatchOptions) (rule other : Rule) : Prop :=
  rule.text = other.text ∧ rule.accepts path options = other.accepts way more

private theorem sameList_iff {rules others : List Rule} :
    sameList rules others = true ↔ rules.map pattern = others.map pattern := by
  induction rules generalizing others with
  | nil => cases others <;> simp [sameList]
  | cons rule rules ih =>
    cases others with
    | nil => simp [sameList]
    | cons other others => simp [sameList, same_iff, ih, pattern]

theorem Compiled.owned {rule : Rule} (compiled : rule.Compiled) : rule.owned.Compiled := compiled

private theorem alike_of_pattern {rules others : List Rule}
    (compiled : ∀ rule ∈ rules, rule.Compiled) (recompiled : ∀ rule ∈ others, rule.Compiled)
    (same : rules.map pattern = others.map pattern)
    (path : Text) (options : MatchOptions) :
    List.Forall₂ (Alike path path options options) rules others := by
  induction rules generalizing others with
  | nil =>
    obtain rfl : others = [] := by simpa using same.symm
    exact List.Forall₂.nil
  | cons rule rules ih =>
    obtain ⟨other, rest, rfl, hpattern, hrest⟩ := List.map_eq_cons_iff.mp same.symm
    obtain ⟨htext, hoptions⟩ := Prod.mk.inj hpattern
    have hrule : rule.glob = .compile rule.text := compiled rule List.mem_cons_self
    have hother : other.glob = .compile other.text := recompiled other List.mem_cons_self
    refine List.Forall₂.cons ⟨htext.symm, ?_⟩ (ih ?_ ?_ hrest.symm)
    · rw [Filter.accepts_eq_patternAccepts hrule, Filter.accepts_eq_patternAccepts hother, htext,
        hoptions]
    · exact fun rule' hrule' => compiled rule' (List.mem_cons_of_mem rule hrule')
    · exact fun rule' hrule' => recompiled rule' (List.mem_cons_of_mem other hrule')

section Alike

variable {rules others : List Rule} {path way : Text} {options more : MatchOptions}

private theorem firstMatch?_of_alike
    (alike : List.Forall₂ (Alike path way options more) rules others) :
    (firstMatch? rules path options).map text = (firstMatch? others way more).map text := by
  induction alike with
  | nil => rfl
  | @cons rule other rules others h _ ih =>
    obtain ⟨htext, haccepts⟩ := h
    rw [firstMatch?, firstMatch?, List.find?_cons, List.find?_cons, ← haccepts]
    cases rule.accepts path options with
    | true => exact congrArg some htext
    | false => exact ih

private theorem anyAccepts_of_alike
    (alike : List.Forall₂ (Alike path way options more) rules others) :
    anyAccepts rules path options = anyAccepts others way more := by
  have hfound := congrArg Option.isSome (firstMatch?_of_alike alike)
  rwa [Option.isSome_map, Option.isSome_map] at hfound

end Alike

end Rule

namespace Filter

theorem same_iff {filter other : Filter} :
    filter.same other = true ↔ filter.disabled = other.disabled ∧
      ∀ role, (filter.rules role).map Rule.pattern = (other.rules role).map Rule.pattern := by
  rw [same, Bool.and_eq_true, decide_eq_true_iff, and_comm, List.all_eq_true]
  apply and_congr_right
  intro _
  simp only [Rule.sameList_iff]
  constructor
  · intro h role
    exact h role (by cases role <;> decide)
  · exact fun h role _ => h role

section Alike

variable {filter other : Filter} {path way : Text} {options more : MatchOptions}

private theorem isEmpty_of_alike {rules others : List Rule}
    (alike : List.Forall₂ (Rule.Alike path way options more) rules others) :
    rules.isEmpty = others.isEmpty := by
  rw [Bool.eq_iff_iff, List.isEmpty_iff_length_eq_zero, List.isEmpty_iff_length_eq_zero,
    alike.length_eq]

theorem value_classify_of_alike (switches : filter.disabled = other.disabled)
    (alike : ∀ role,
      List.Forall₂ (Rule.Alike path way options more) (filter.rules role) (other.rules role)) :
    (filter.classify path options).value = (other.classify way more).value := by
  apply value_classify_congr
  · rw [isSelective, isSelective, switches, isEmpty_of_alike (alike .includes)]
  · intro role _
    rw [hits, hits, switches, Rule.anyAccepts_of_alike (alike role)]

private theorem askRules_of_alike (role : Role) {rules others : List Rule}
    (alike : List.Forall₂ (Rule.Alike path path options more) rules others) :
    askRules role path options rules = askRules role path more others := by
  induction alike with
  | nil => rfl
  | cons h _ ih => rw [askRules, askRules, h.1, h.2, ih]

private theorem effective?_of_alike (switches : filter.disabled = other.disabled) {role : Role}
    (alike : List.Forall₂ (Rule.Alike path way options more) (filter.rules role)
      (other.rules role)) :
    filter.effective? role = none ∧ other.effective? role = none ∨
      filter.effective? role = some (filter.rules role) ∧
        other.effective? role = some (other.rules role) := by
  simp only [effective?, switches, isEmpty_of_alike alike]
  split_ifs
  · exact Or.inl ⟨rfl, rfl⟩
  · exact Or.inr ⟨rfl, rfl⟩

private theorem ask_of_alike (switches : filter.disabled = other.disabled) {role : Role}
    (alike : List.Forall₂ (Rule.Alike path path options more) (filter.rules role)
      (other.rules role)) :
    filter.ask role path options = other.ask role path more := by
  rcases effective?_of_alike switches alike with ⟨hfilter, hother⟩ | ⟨hfilter, hother⟩
  · rw [ask, ask, hfilter, hother]
  · rw [ask, ask, hfilter, hother]
    exact askRules_of_alike role alike

theorem classify_of_alike (switches : filter.disabled = other.disabled)
    (alike : ∀ role,
      List.Forall₂ (Rule.Alike path path options more) (filter.rules role) (other.rules role)) :
    filter.classify path options = other.classify path more := by
  have hask : ∀ role, filter.ask role path options = other.ask role path more :=
    fun role => ask_of_alike switches (alike role)
  have hjudge : filter.judge path options = other.judge path more := by
    simp only [judge, hask]
    rcases effective?_of_alike switches (alike .includes) with ⟨hfilter, hother⟩ | ⟨hfilter, hother⟩
    · rw [hfilter, hother]
    · rw [hfilter, hother]
  rw [classify, classify, hjudge]

end Alike

private theorem Reachable.alike_of_same {filter other : Filter} (reachable : filter.Reachable)
    (hother : other.Reachable) (same : filter.same other = true) (path : Text)
    (options : MatchOptions) (role : Role) :
    List.Forall₂ (Rule.Alike path path options options) (filter.rules role) (other.rules role) :=
  Rule.alike_of_pattern (fun _ hrule => reachable.glob_eq hrule)
    (fun _ hrule => hother.glob_eq hrule)
    ((same_iff.mp same).2 role) path options

private theorem same_deepCopy (filter : Filter) : filter.deepCopy.same filter = true := by
  rw [same_iff]
  refine ⟨rfl, ?_⟩
  intro role
  rw [deepCopy, rules_mapRules, List.map_map]
  rfl

/-- Every rule matches as its text does, also after it was made a rule with a text of its own;
filters that are equal by texts, options, order and switches decide alike and find matches of the
same text; and copies equal the filter that they are copies of. -/
theorem accepts_and_classify_of_same :
    (∀ {filter : Filter} {role : Role} {rule : Rule} (path : Text) (options : MatchOptions),
      filter.Reachable → rule ∈ filter.rules role →
      rule.accepts path options = patternAccepts rule.text path (rule.options.union options) ∧
        rule.owned.accepts path options =
          patternAccepts rule.owned.text path (rule.owned.options.union options)) ∧
    (∀ {S T : Filter} (path : Text) (options : MatchOptions),
      S.Reachable → T.Reachable →
      (S.same T = true ↔ S.disabled = T.disabled ∧
        ∀ role, (S.rules role).map Rule.pattern = (T.rules role).map Rule.pattern) ∧
      (S.same T = true →
        S.classify path options = T.classify path options ∧
        S.admits path options = T.admits path options ∧
        ∀ role,
          Rule.anyAccepts (S.rules role) path options =
            Rule.anyAccepts (T.rules role) path options ∧
          (Rule.firstMatch? (S.rules role) path options).map Rule.text =
            (Rule.firstMatch? (T.rules role) path options).map Rule.text)) ∧
    ∀ filter : Filter,
      filter.deepCopy.same filter = true ∧ (filter.apply .copy).value.same filter = true ∧
        ∀ role, ∀ rule ∈ filter.deepCopy.rules role, rule.borrowed = false := by
  refine ⟨?_, ?_, ?_⟩
  · intro filter role rule path options reachable hrule
    have compiled : rule.Compiled := reachable.glob_eq hrule
    exact ⟨accepts_eq_patternAccepts compiled path options,
      accepts_eq_patternAccepts compiled.owned path options⟩
  · intro S T path options hS hT
    refine ⟨same_iff, ?_⟩
    intro same
    have alike := hS.alike_of_same hT same path options
    have hclassify : S.classify path options = T.classify path options :=
      classify_of_alike (same_iff.mp same).1 alike
    refine ⟨hclassify, ?_, ?_⟩
    · rw [admits, admits, hclassify]
    · intro role
      exact ⟨Rule.anyAccepts_of_alike (alike role), Rule.firstMatch?_of_alike (alike role)⟩
  · intro filter
    refine ⟨same_deepCopy filter, same_iff.mpr ⟨rfl, fun _ => rfl⟩, ?_⟩
    intro role rule hrule
    rw [deepCopy, rules_mapRules] at hrule
    obtain ⟨source, -, rfl⟩ := List.mem_map.mp hrule
    rfl

theorem accepts_and_classify_of_same_borrowed :
    let S := (afterAll [.addBorrowed .excludes "gen/".toList { belowFolders := true },
      .addStored .includes "*.c".toList { anywhere := true } .shallow]).value
    let T := (afterAll [.add .reserved "x".toList .none, .clear (.single .reserved),
      .addAll .includes ["*.c".toList] { anywhere := true },
      .addCut .excludes "gen/x".toList 4 { belowFolders := true } .deep, .deepCopy]).value
    let rule := Rule.borrow "gen/".toList { belowFolders := true }
    (S.Reachable ∧ T.Reachable ∧ S.same T = true ∧ rule ∈ S.rules .excludes) ∧
      rule.owned.accepts "gen/a/b.c".toList .none =
        patternAccepts "gen/".toList "gen/a/b.c".toList { belowFolders := true } ∧
      S.classify "gen/a/b.c".toList .none = T.classify "gen/a/b.c".toList .none := by
  intro S T rule
  have hS : S.Reachable := ⟨_, rfl⟩
  have hT : T.Reachable := ⟨_, rfl⟩
  have same : S.same T = true := by decide +kernel
  have hrule : rule ∈ S.rules .excludes := by decide +kernel
  refine ⟨⟨hS, hT, same, hrule⟩, ?_, ?_⟩
  · exact (accepts_and_classify_of_same.1 _ .none hS hrule).2
  · exact ((accepts_and_classify_of_same.2.1 _ .none hS hT).2 same).1

end Filter

end PathFilter
