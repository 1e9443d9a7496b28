import Mathlib.Data.List.Basic
import PathFilter.Proofs.Filter.Decision
import PathFilter.Proofs.Filter.Rules

/-!
The rules that a decision asks. Put one after the other, the rules in effect of the excluding, the
including and the ignoring role are the questions of a filter (`questions`); a decision asks them in
this order and stops at the first one that matches. So the events of a decision tell exactly which
rules were asked and what they answered, and a match is reported at most once, by the rule that
settles the verdict.
-/

set_option autoImplicit false
set_option relaxedAutoImplicit false

namespace PathFilter

section UpToFirst

variable {α β : Type}

/-- The members of a list up to the first one selected, that one included; all of them if none is.
-/
def upToFirst (selected : α → Bool) : List α → List α
  | [] => []
  | a :: rest => if selected a then [a] else a :: upToFirst selected rest

private theorem upToFirst_append (selected : α → Bool) (left right : List α) :
    upToFirst selected (left ++ right) =
      if left.any selected then upToFirst selected left else left ++ upToFirst selected right := by
  induction left with
  | nil => rfl
  | cons a left ih =>
    rw [List.cons_append, upToFirst, upToFirst, List.any_cons]
    by_cases hselected : selected a = true
    · simp [hselected]
    · rw [if_neg hselected, if_neg hselected, Bool.eq_false_iff.mpr hselected, Bool.false_or, ih]
      split_ifs <;> rfl

private theorem upToFirst_eq_self {selected : α → Bool} {items : List α}
    (h : items.any selected = false) :
    upToFirst selected items = items := by
  have happend := upToFirst_append selected items []
  rw [h, List.append_nil] at happend
  exact happend.trans (List.append_nil items)

private theorem upToFirst_map (selected : β → Bool) (f : α → β) (items : List α) :
    upToFirst selected (items.map f) = (upToFirst (fun a => selected (f a)) items).map f := by
  induction items with
  | nil => rfl
  | cons a items ih =>
    simp only [List.map_cons, upToFirst, ih]
    split <;> rfl

/-- Lists one after the other are read up to the first member selected: up to the first list that
has one, and in that list up to it. -/
theorem upToFirst_flatMap (selected : β → Bool) (f : α → List β) (items : List α) :
    upToFirst selected (items.flatMap f) =
      (upToFirst (fun a => (f a).any selected) items).flatMap fun a =>
        upToFirst selected (f a) := by
  induction items with
  | nil => rfl
  | cons a items ih =>
    rw [List.flatMap_cons, upToFirst_append, ih, upToFirst]
    cases hany : (f a).any selected with
    | true => exact (List.append_nil _).symm
    | false =>
      have hall : upToFirst selected (f a) = f a := upToFirst_eq_self hany
      simp only [Bool.false_eq_true, if_false, List.flatMap_cons, hall]

private theorem eq_nil_and_find?_of_upToFirst {selected : α → Bool} {items before after : List α}
    {a : α} (h : upToFirst selected items = before ++ a :: after) (ha : selected a = true) :
    after = [] ∧ items.find? selected = some a := by
  induction items generalizing before with
  | nil => simp [upToFirst] at h
  | cons first items ih =>
    rw [upToFirst] at h
    cases hfirst : selected first with
    | true =>
      rw [if_pos hfirst, eq_comm, List.append_eq_singleton_iff] at h
      simp only [List.cons.injEq, reduceCtorEq, and_false, or_false] at h
      obtain ⟨-, rfl, hafter⟩ := h
      exact ⟨hafter, List.find?_cons_of_pos hfirst⟩
    | false =>
      rw [if_neg (by simp [hfirst])] at h
      cases before with
      | nil =>
        obtain ⟨rfl, -⟩ := List.cons.inj h
        rw [ha] at hfirst
        exact absurd hfirst.symm Bool.false_ne_true
      | cons other before =>
        obtain ⟨-, hrest⟩ := List.cons.inj h
        rw [List.find?_cons_of_neg (by simp [hfirst])]
        exact ih hrest

end UpToFirst

/-- The verdict that a matching rule settles; reserved rules settle none. -/
def Role.verdict? : Role → Option Verdict
  | .includes => some .included
  | .excludes => some .excluded
  | .ignores => some .ignored
  | .reserved => none

namespace Filter

def rulesInEffect (filter : Filter) (role : Role) : List Rule :=
  if filter.disabled.isSet role then [] else filter.rules role

/-- The roles that are asked, in order; the including one only if it has rules in effect. -/
def askedRoles (filter : Filter) : List Role :=
  if filter.rulesInEffect .includes = [] then [.excludes, .ignores]
  else [.excludes, .includes, .ignores]

def questions (filter : Filter) : List (Role × Rule) :=
  filter.askedRoles.flatMap fun role => (filter.rulesInEffect role).map fun rule => (role, rule)

end Filter

def Rule.report (path : Text) (options : MatchOptions) (role : Role) (rule : Rule) : Event :=
  .ruleTested path role rule.text (rule.accepts path options)

namespace Filter

variable (filter : Filter) (path : Text) (options : MatchOptions)

private theorem hits_eq_anyAccepts (role : Role) :
    filter.hits role path options = Rule.anyAccepts (filter.rulesInEffect role) path options := by
  rw [hits, rulesInEffect]
  cases filter.disabled.isSet role <;> rfl

private theorem events_askRules (role : Role) (rules : List Rule) :
    (askRules role path options rules).events =
      (upToFirst (fun rule => rule.accepts path options) rules).map
        (Rule.report path options role) := by
  induction rules with
  | nil => rfl
  | cons rule rest ih =>
    rw [askRules, upToFirst, Logged.events_bind, Logged.events_emit]
    cases hmatched : rule.accepts path options with
    | true => simp [Rule.report, hmatched]
    | false => simp [Rule.report, hmatched, ih]

private theorem ask_eq_askRules {role : Role} (consulted : role ≠ .reserved) :
    filter.ask role path options = askRules role path options (filter.rulesInEffect role) := by
  rw [ask, effective?, filter.disabled.disables_eq_isSet consulted, rulesInEffect]
  cases filter.disabled.isSet role with
  | true => rfl
  | false =>
    cases filter.rules role with
    | nil => rfl
    | cons rule rest => rfl

private theorem isSelective_eq_true_iff_inEffect :
    filter.isSelective = true ↔ filter.rulesInEffect .includes ≠ [] := by
  have hswitch : filter.disabled.isSet .includes = filter.disabled.includes := rfl
  rw [isSelective, rulesInEffect, hswitch]
  cases filter.disabled.includes <;> simp

private theorem askedRoles_of_isSelective (h : filter.isSelective = true) :
    filter.askedRoles = [.excludes, .includes, .ignores] :=
  if_neg (filter.isSelective_eq_true_iff_inEffect.mp h)

private theorem askedRoles_of_not_isSelective (h : filter.isSelective = false) :
    filter.askedRoles = [.excludes, .ignores] := by
  rw [← Bool.not_eq_true, isSelective_eq_true_iff_inEffect, ne_eq, Decidable.not_not] at h
  exact if_pos h

/-- Roles are asked in order up to the first one that hits, and of each its rules up to the first
match. -/
theorem events_judge :
    (filter.judge path options).events =
      (upToFirst (fun role => filter.hits role path options) filter.askedRoles).flatMap fun role =>
        (upToFirst (fun rule => rule.accepts path options) (filter.rulesInEffect role)).map
          (Rule.report path options role) := by
  have hevents : ∀ role, role ≠ .reserved → (filter.ask role path options).events =
      (upToFirst (fun rule => rule.accepts path options) (filter.rulesInEffect role)).map
        (Rule.report path options role) := by
    intro role consulted
    rw [ask_eq_askRules filter path options consulted, events_askRules]
  have hanswer : ∀ role, role ≠ .reserved →
      (filter.ask role path options).value = filter.hits role path options :=
    fun role consulted => filter.value_ask consulted path options
  rw [judge, Logged.events_bind, hanswer .excludes (by decide), effective?_includes]
  cases hselective : filter.isSelective with
  | false =>
    rw [filter.askedRoles_of_not_isSelective hselective]
    cases hexcludes : filter.hits .excludes path options with
    | true => simp [upToFirst, hexcludes, hevents]
    | false => simp [upToFirst, hexcludes, hevents]
  | true =>
    rw [filter.askedRoles_of_isSelective hselective]
    cases hexcludes : filter.hits .excludes path options with
    | true => simp [upToFirst, hexcludes, hevents]
    | false =>
      cases hincludes : filter.hits .includes path options with
      | true => simp [upToFirst, hexcludes, hincludes, hevents, hanswer]
      | false => simp [upToFirst, hexcludes, hincludes, hevents, hanswer]

private theorem find?_questions :
    filter.questions.find? (fun question => question.2.accepts path options) =
      filter.askedRoles.findSome? fun role =>
        ((filter.rulesInEffect role).find? fun rule => rule.accepts path options).map
          fun rule => (role, rule) := by
  rw [questions, List.find?_flatMap]
  simp only [List.find?_map, Function.comp_def]

private theorem verdict?_of_find?_questions {role : Role} {rule : Rule}
    (h : filter.questions.find? (fun question => question.2.accepts path options) =
      some (role, rule)) :
    role.verdict? = some (filter.judge path options).value ∧
      Rule.firstMatch? (filter.rulesInEffect role) path options = some rule := by
  have hhits : ∀ other, filter.hits other path options =
      (Rule.firstMatch? (filter.rulesInEffect other) path options).isSome :=
    fun other => filter.hits_eq_anyAccepts path options other
  have hfound : filter.askedRoles.findSome? (fun other =>
      (Rule.firstMatch? (filter.rulesInEffect other) path options).map fun rule => (other, rule)) =
        some (role, rule) := by
    rw [← h, find?_questions]
    rfl
  rw [value_judge, hhits, hhits, hhits]
  cases hexcludes : Rule.firstMatch? (filter.rulesInEffect .excludes) path options with
  | some found =>
    have hhead : filter.askedRoles.head? = some .excludes := by
      unfold askedRoles
      split <;> rfl
    obtain ⟨others, hroles⟩ := List.head?_eq_some_iff.mp hhead
    rw [hroles, List.findSome?_cons, hexcludes] at hfound
    obtain ⟨rfl, rfl⟩ := Prod.mk.inj (Option.some.inj hfound)
    exact ⟨rfl, hexcludes⟩
  | none =>
    cases hselective : filter.isSelective with
    | false =>
      rw [filter.askedRoles_of_not_isSelective hselective, List.findSome?_cons, hexcludes] at hfound
      cases hignores : Rule.firstMatch? (filter.rulesInEffect .ignores) path options with
      | none => simp [hignores] at hfound
      | some found =>
        obtain ⟨rfl, rfl⟩ : Role.ignores = role ∧ found = rule := by simpa [hignores] using hfound
        exact ⟨rfl, hignores⟩
    | true =>
      rw [filter.askedRoles_of_isSelective hselective, List.findSome?_cons, hexcludes] at hfound
      cases hincludes : Rule.firstMatch? (filter.rulesInEffect .includes) path options with
      | some found =>
        obtain ⟨rfl, rfl⟩ : Role.includes = role ∧ found = rule := by simpa [hincludes] using hfound
        exact ⟨rfl, hincludes⟩
      | none =>
        cases hignores : Rule.firstMatch? (filter.rulesInEffect .ignores) path options with
        | none => simp [hincludes, hignores] at hfound
        | some found =>
          obtain ⟨rfl, rfl⟩ : Role.ignores = role ∧ found = rule := by
            simpa [hincludes, hignores] using hfound
          exact ⟨rfl, hignores⟩

private theorem firstMatch?_of_rulesInEffect {role : Role} {rule : Rule}
    (h : Rule.firstMatch? (filter.rulesInEffect role) path options = some rule) :
    Rule.firstMatch? (filter.rules role) path options = some rule := by
  rw [rulesInEffect] at h
  split at h
  · exact absurd h (by simp [Rule.firstMatch?])
  · exact h

private theorem events_judge_eq_questions :
    (filter.judge path options).events =
      (upToFirst (fun question => question.2.accepts path options) filter.questions).map
        fun question => question.2.report path options question.1 := by
  have hhits : ∀ role, filter.hits role path options =
      ((filter.rulesInEffect role).map fun rule => (role, rule)).any
        fun question => question.2.accepts path options := by
    intro role
    rw [hits_eq_anyAccepts, Rule.anyAccepts, Rule.firstMatch?, List.isSome_find?, List.any_map]
    rfl
  rw [events_judge, questions, upToFirst_flatMap, List.map_flatMap]
  simp only [hhits, upToFirst_map, List.map_map, Function.comp_def]

/-- A match that is reported is the last report, that of the rule that settles the verdict. -/
theorem settles_of_report {before after : List Event} {way : Text} {role : Role} {text : Text}
    (h : (filter.judge path options).events = before ++ .ruleTested way role text true :: after) :
    after = [] ∧ (Rule.firstMatch? (filter.rules role) path options).map Rule.text = some text ∧
      role.verdict? = some (filter.judge path options).value := by
  rw [events_judge_eq_questions] at h
  obtain ⟨earlier, rest, hquestions, -, hrest⟩ := List.map_eq_append_iff.mp h
  obtain ⟨⟨asked, rule⟩, later, rfl, hreport, rfl⟩ := List.map_eq_cons_iff.mp hrest
  obtain ⟨-, rfl, rfl, hmatched⟩ := Event.ruleTested.inj hreport
  obtain ⟨rfl, hfound⟩ := eq_nil_and_find?_of_upToFirst hquestions hmatched
  obtain ⟨hverdict, hfirst⟩ := filter.verdict?_of_find?_questions path options hfound
  refine ⟨rfl, ?_, hverdict⟩
  rw [filter.firstMatch?_of_rulesInEffect path options hfirst]
  rfl

/-- The events of a decision. After every history the rules of a role are kept in the order in which
they were added; the roles are asked in order up to the first that hits, each of them rule by rule
up to the first match, and the verdict is reported last. Hence a match is reported last of all
rules, for the first rule of its role that matches, and it settles the verdict. -/
theorem events_classify (changes : List FilterChange) :
    let filter := (afterAll changes).value
    let verdict := (filter.classify path options).value
    let events := (filter.classify path options).events
    (∀ role, (filter.rules role).map Rule.entry = FilterChange.standing role changes) ∧
      events =
        ((upToFirst (fun role => filter.hits role path options) filter.askedRoles).flatMap
          fun role =>
            (upToFirst (fun rule => rule.accepts path options) (filter.rulesInEffect role)).map
              fun rule => .ruleTested path role rule.text (rule.accepts path options)) ++
          [.classified path verdict] ∧
      ∀ before after way role text, events = before ++ .ruleTested way role text true :: after →
        after = [.classified path verdict] ∧
          (Rule.firstMatch? (filter.rules role) path options).map Rule.text = some text ∧
          role.verdict? = some verdict := by
  intro filter verdict events
  have hevents : events = (filter.judge path options).events ++ [.classified path verdict] := rfl
  refine ⟨?_, ?_, ?_⟩
  · intro role
    rw [rules_afterAll, List.map_map]
    exact List.map_id _
  · rw [hevents, events_judge]
    rfl
  · intro before after way role text h
    rw [hevents] at h
    -- the last event is the verdict and no test
    rcases List.eq_nil_or_concat' after with rfl | ⟨tests, last, rfl⟩
    · obtain ⟨-, hlast⟩ := List.append_inj' h rfl
      exact absurd hlast (by simp)
    · rw [← List.cons_append, ← List.append_assoc] at h
      obtain ⟨htests, hlast⟩ := List.append_inj' h rfl
      obtain ⟨rfl, hfirst, hverdict⟩ := filter.settles_of_report path options htests
      exact ⟨hlast.symm, hfirst, hverdict⟩

theorem events_classify_ignored :
    let changes : List FilterChange :=
      [.add .ignores "*.c".toList .none, .add .excludes "gen".toList { anywhere := true },
        .addAll .ignores ["a.?".toList, "**".toList] .none, .add .includes "a.o".toList .none,
        .setDisabled { includes := true }]
    let filter := (afterAll changes).value
    let path := "a.o".toList
    let events := (filter.classify path .none).events
    let before : List Event := [.ruleTested path .excludes "gen".toList false,
      .ruleTested path .ignores "*.c".toList false]
    events = before ++ .ruleTested path .ignores "a.?".toList true :: [.classified path .ignored] ∧
      (Rule.firstMatch? (filter.rules .ignores) path .none).map Rule.text = some "a.?".toList ∧
      Role.verdict? .ignores = some (filter.classify path .none).value := by
  intro changes filter path events before
  have hevents : events =
      before ++ .ruleTested path .ignores "a.?".toList true :: [.classified path .ignored] := by
    decide +kernel
  obtain ⟨-, hfirst, hverdict⟩ := (events_classify path .none changes).2.2 _ _ _ _ _ hevents
  exact ⟨hevents, hfirst, hverdict⟩

end Filter

end PathFilter
