import PathFilter.Proofs.Filter.Decision

/-!
How one more rule moves a verdict. A rule that is added to a role makes the role hit more paths, by
the answer of the rule alone, and the first including rule makes the filter selective. The verdict
with the rule follows from the verdict without it, the role and the answer (`Verdict.withRule`),
whatever other rules there are.
-/

set_option autoImplicit false
set_option relaxedAutoImplicit false

namespace PathFilter

/-- The verdict on a path with one more rule of a role that is switched on, from the verdict without
it and from whether the rule matches. -/
def Verdict.withRule (before : Verdict) (role : Role) (matched : Bool) : Verdict :=
  match role with
  | .excludes => if matched then .excluded else before
  | .ignores => if matched ∧ (before = .implied ∨ before = .maybe) then .ignored else before
  | .includes =>
    if before = .excluded ∨ before = .included then before
    else if matched then .included
    else if before = .implied then .maybe
    else before
  | .reserved => before

private theorem Rule.anyAccepts_concat (rules : List Rule) (rule : Rule) (path : Text)
    (options : MatchOptions) :
    anyAccepts (rules ++ [rule]) path options =
      (anyAccepts rules path options || rule.accepts path options) := by
  rw [Bool.eq_iff_iff, Bool.or_eq_true, anyAccepts_eq_true_iff, anyAccepts_eq_true_iff]
  simp only [List.mem_append, List.mem_singleton]
  constructor
  · rintro ⟨other, hother | rfl, haccepts⟩
    · exact Or.inl ⟨other, hother, haccepts⟩
    · exact Or.inr haccepts
  · rintro (⟨other, hother, haccepts⟩ | haccepts)
    · exact ⟨other, Or.inl hother, haccepts⟩
    · exact ⟨rule, Or.inr rfl, haccepts⟩

namespace Filter

variable (filter : Filter) (rule : Rule) (path : Text) (options : MatchOptions)

private theorem hits_push (role other : Role) :
    (filter.push role rule).value.hits other path options =
      (filter.hits other path options ||
        (decide (role = other) && !filter.disabled.isSet role && rule.accepts path options)) := by
  rw [value_push, hits, hits, disabled_withRules, rules_withRules]
  by_cases heq : role = other
  · subst heq
    rw [if_pos rfl, Rule.anyAccepts_concat, decide_eq_true rfl, Bool.true_and,
      Bool.and_or_distrib_left]
  · rw [if_neg heq, decide_eq_false heq, Bool.false_and, Bool.false_and, Bool.or_false]

private theorem isSelective_push (role : Role) :
    (filter.push role rule).value.isSelective =
      (filter.isSelective || (decide (role = .includes) && !filter.disabled.isSet role)) := by
  rw [value_push, isSelective, isSelective, disabled_withRules, rules_withRules]
  by_cases heq : role = .includes
  · subst heq
    have hswitch : filter.disabled.isSet .includes = filter.disabled.includes := rfl
    rw [hswitch, if_pos rfl, decide_eq_true rfl]
    cases filter.disabled.includes <;> simp
  · rw [if_neg heq, decide_eq_false heq, Bool.false_and, Bool.or_false]

private theorem isSelective_of_hits (h : filter.hits .includes path options = true) :
    filter.isSelective = true := by
  rw [hits, Bool.and_eq_true, Rule.anyAccepts_eq_true_iff] at h
  obtain ⟨hon, rule, hrule, -⟩ := h
  have hne : filter.rules .includes ≠ [] := List.ne_nil_of_mem hrule
  rw [isSelective, Bool.and_eq_true]
  exact ⟨hon, by simpa using hne⟩

private theorem value_classify_push_of_isSet {role : Role}
    (off : filter.disabled.isSet role = true) :
    ((filter.push role rule).value.classify path options).value =
      (filter.classify path options).value := by
  apply value_classify_congr
  · rw [isSelective_push, off]
    simp
  · intro other _
    rw [hits_push, off]
    simp

private theorem hits_push_self {role : Role} (on : filter.disabled.isSet role = false) :
    (filter.push role rule).value.hits role path options =
      (filter.hits role path options || rule.accepts path options) := by
  rw [hits_push, on, decide_eq_true rfl, Bool.not_false, Bool.true_and, Bool.true_and]

private theorem hits_push_of_ne {role other : Role} (h : role ≠ other) :
    (filter.push role rule).value.hits other path options = filter.hits other path options := by
  rw [hits_push, decide_eq_false h, Bool.false_and, Bool.false_and, Bool.or_false]

private theorem isSelective_push_of_ne {role : Role} (h : role ≠ .includes) :
    (filter.push role rule).value.isSelective = filter.isSelective := by
  rw [isSelective_push, decide_eq_false h, Bool.false_and, Bool.or_false]

private theorem isSelective_push_includes (on : filter.disabled.isSet .includes = false) :
    (filter.push .includes rule).value.isSelective = true := by
  rw [isSelective_push, on, decide_eq_true rfl, Bool.not_false, Bool.true_and, Bool.or_true]

/-- The verdict with one more rule of a role that is switched on: the hits of its role grow by the
answer of the rule, and those of the other roles stay. -/
theorem value_classify_push {role : Role} (on : filter.disabled.isSet role = false) :
    ((filter.push role rule).value.classify path options).value =
      (filter.classify path options).value.withRule role (rule.accepts path options) := by
  rw [value_classify, value_classify, value_judge, value_judge]
  cases role with
  | includes =>
    have hselective := filter.isSelective_of_hits path options
    rw [isSelective_push_includes filter rule on, hits_push_self filter rule path options on,
      hits_push_of_ne filter rule path options (by decide),
      hits_push_of_ne filter rule path options (by decide)]
    generalize filter.isSelective = selective at hselective ⊢
    cases filter.hits .excludes path options with
    | true => rfl
    | false =>
      cases hincludes : filter.hits .includes path options with
      | true =>
        obtain rfl := hselective hincludes
        rfl
      | false =>
        -- now the first including rule may make the filter selective
        generalize filter.hits .ignores path options = ignoring
        cases rule.accepts path options <;> cases selective <;> cases ignoring <;> rfl
  | excludes =>
    rw [isSelective_push_of_ne filter rule (by decide), hits_push_self filter rule path options on,
      hits_push_of_ne filter rule path options (by decide),
      hits_push_of_ne filter rule path options (by decide)]
    cases rule.accepts path options with
    | true => rw [Bool.or_true]; rfl
    | false => rw [Bool.or_false]; rfl
  | ignores =>
    rw [isSelective_push_of_ne filter rule (by decide), hits_push_self filter rule path options on,
      hits_push_of_ne filter rule path options (by decide),
      hits_push_of_ne filter rule path options (by decide)]
    cases filter.hits .excludes path options with
    | true => cases rule.accepts path options <;> rfl
    | false =>
      cases filter.isSelective && filter.hits .includes path options with
      | true => cases rule.accepts path options <;> rfl
      | false =>
        -- no rule of another role decides, so an ignored path is one that was implied or left open
        cases filter.hits .ignores path options <;> cases rule.accepts path options <;>
          cases filter.isSelective <;> rfl
  | reserved =>
    rw [isSelective_push_of_ne filter rule (by decide),
      hits_push_of_ne filter rule path options (by decide),
      hits_push_of_ne filter rule path options (by decide),
      hits_push_of_ne filter rule path options (by decide)]
    rfl

/-- The verdict with one more rule. A reserved rule and a rule of a role that is switched off change
nothing; otherwise the verdict moves as the role of the rule and the answer of its pattern say. -/
theorem classify_add (role : Role) (text : Text) (own : MatchOptions) :
    ((filter.add role text own).value.classify path options).value =
      if role = .reserved ∨ filter.disabled.isSet role = true then
        (filter.classify path options).value
      else (filter.classify path options).value.withRule role
        (patternAccepts text path (own.union options)) := by
  have hadd : filter.add role text own = filter.push role (.own text own) := rfl
  rw [hadd]
  cases hswitch : filter.disabled.isSet role with
  | true =>
    rw [if_pos (Or.inr rfl)]
    exact filter.value_classify_push_of_isSet _ path options hswitch
  | false =>
    have hmoved := filter.value_classify_push (.own text own) path options hswitch
    by_cases hrole : role = .reserved
    · subst hrole
      rw [if_pos (Or.inl rfl)]
      exact hmoved
    · rw [if_neg (by simp [hrole])]
      exact hmoved

end Filter

end PathFilter
