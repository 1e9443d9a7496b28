import PathFilter.Session.Basic

set_option autoImplicit false
set_option relaxedAutoImplicit false

namespace PathFilter

namespace Event

/-- The event is about the classification of paths: a rule that was asked, a verdict, or the tally
of a batch. -/
def IsOnPaths : Event → Prop
  | .ruleTested .. | .classified .. | .batchClassified _ => True
  | _ => False

def IsTally : Event → Prop
  | .batchClassified _ => True
  | _ => False

theorem IsTally.isOnPaths {event : Event} (tally : event.IsTally) : event.IsOnPaths := by
  cases event with
  | batchClassified _ => trivial
  | _ => exact tally.elim

end Event

namespace Logged

variable {α β : Type} {kind : Event → Prop}

structure Silent (kind : Event → Prop) (result : Logged α) : Prop where
  not_kind : ∀ event ∈ result.events, ¬ kind event

theorem silent_pure (value : α) : (pure value : Logged α).Silent kind := ⟨by simp⟩

theorem silent_emit {event : Event} (h : ¬ kind event) : (emit event).Silent kind := ⟨by simp [h]⟩

theorem Silent.bind {first : Logged α} {next : α → Logged β} (hfirst : first.Silent kind)
    (hnext : ∀ value, (next value).Silent kind) : (first >>= next).Silent kind := by
  constructor
  intro event hevent
  rw [events_bind] at hevent
  rcases List.mem_append.mp hevent with hevent | hevent
  · exact hfirst.not_kind event hevent
  · exact (hnext first.value).not_kind event hevent

theorem Silent.mono {other : Event → Prop} {result : Logged α} (silent : result.Silent kind)
    (h : ∀ event, other event → kind event) : result.Silent other :=
  ⟨fun event hevent hother => silent.not_kind event hevent (h event hother)⟩

private theorem silent_foldlM {step : β → α → Logged β}
    (hstep : ∀ state item, (step state item).Silent kind) (start : β) (items : List α) :
    (items.foldlM step start).Silent kind := by
  induction items generalizing start with
  | nil => exact silent_pure start
  | cons item items ih =>
    rw [List.foldlM_cons]
    exact (hstep start item).bind ih

end Logged

namespace Attempt

variable {α β ε : Type} {kind : Event → Prop}

theorem silent_bind {first : Attempt α} {next : α → Attempt β} (hfirst : first.run.Silent kind)
    (hnext : ∀ value, (next value).run.Silent kind) : (first >>= next).run.Silent kind := by
  refine hfirst.bind fun result => ?_
  cases result with
  | ok value => exact hnext value
  | error error => exact Logged.silent_pure _

private theorem silent_ofResult {wrap : ε → RunError} {result : Logged (Except ε α)}
    (silent : result.Silent kind) : (ofResult wrap result).run.Silent kind := by
  refine silent.bind fun value => ?_
  cases value <;> exact Logged.silent_pure _

private theorem silent_ofLogged {result : Logged α} (silent : result.Silent kind) :
    (ofLogged result).run.Silent kind :=
  silent.bind fun value => Logged.silent_pure (Except.ok value)

private theorem silent_foldlM {step : β → α → Attempt β}
    (hstep : ∀ state item, (step state item).run.Silent kind) (start : β) (items : List α) :
    (items.foldlM step start : Attempt β).run.Silent kind := by
  induction items generalizing start with
  | nil => exact Logged.silent_pure (Except.ok start)
  | cons item items ih =>
    rw [List.foldlM_cons]
    exact silent_bind (hstep start item) ih

end Attempt

namespace Filter

private theorem silent_addAll (filter : Filter) (role : Role) (texts : List Text)
    (options : MatchOptions) :
    (filter.addAll role texts options).Silent Event.IsOnPaths :=
  Logged.silent_foldlM
    (fun _ _ => (Logged.silent_emit (by simp [Event.IsOnPaths])).bind fun _ => Logged.silent_pure _)
    filter texts

private theorem silent_addFile (filter : Filter) (files : Files) (role : Role) (name : FileName)
    (options : MatchOptions) : (filter.addFile files role name options).Silent Event.IsOnPaths := by
  rw [addFile]
  cases files.readText name with
  | error failure => exact Logged.silent_pure _
  | ok text =>
    exact (silent_addAll ..).bind fun _ =>
      (Logged.silent_emit (by simp [Event.IsOnPaths])).bind fun _ => Logged.silent_pure _

private theorem silent_loadIgnores (filter : Filter) {source : IgnoreSource} {repository : Text}
    (silent : (source.ignores repository).Silent Event.IsOnPaths) (options : MatchOptions) :
    (filter.loadIgnores source repository options).Silent Event.IsOnPaths := by
  refine silent.bind fun result => ?_
  cases result with
  | error cause => exact Logged.silent_pure _
  | ok patterns =>
    exact (silent_addAll ..).bind fun _ =>
      (Logged.silent_emit (by simp [Event.IsOnPaths])).bind fun _ => Logged.silent_pure _

end Filter

private theorem Settings.silent_ofFile (files : Files) (name : FileName) :
    (Settings.ofFile files name).Silent Event.IsOnPaths := by
  rw [ofFile]
  cases files.readText name with
  | error failure => exact Logged.silent_pure _
  | ok text =>
    simp only
    cases parse text (some name) with
    | error error => exact Logged.silent_pure _
    | ok settings =>
      exact (Logged.silent_emit (by simp [Event.IsOnPaths])).bind fun _ => Logged.silent_pure _

namespace CommandLine.Invocation

private theorem silent_addRole (files : Files) (role : Role) (options : MatchOptions)
    (patterns : List Text) (names : List FileName) (filter : Filter) :
    (addRole files role options patterns names filter).run.Silent Event.IsOnPaths := by
  refine Attempt.silent_bind (Attempt.silent_ofLogged (filter.silent_addAll ..)) fun filter => ?_
  refine Attempt.silent_foldlM (fun filter name => ?_) filter names
  exact Attempt.silent_bind (Attempt.silent_ofResult (filter.silent_addFile ..))
    fun added => Logged.silent_pure (Except.ok added.1)

private theorem silent_addSettings (invocation : Invocation) (files : Files) (filter : Filter) :
    (invocation.addSettings files filter).run.Silent Event.IsOnPaths := by
  rw [addSettings]
  cases invocation.settings with
  | none => exact Logged.silent_pure (Except.ok filter)
  | some file =>
    cases invocation.repository with
    | none => exact Logged.silent_pure (Except.ok filter)
    | some repository =>
      refine Attempt.silent_bind (Attempt.silent_ofResult (Settings.silent_ofFile files file))
        fun settings => ?_
      have hsource : (settings.source.ignores repository).Silent Event.IsOnPaths :=
        Logged.silent_pure _
      exact Attempt.silent_bind (Attempt.silent_ofResult (filter.silent_loadIgnores hsource _))
        fun added => Logged.silent_pure (Except.ok added.1)

theorem silent_buildFilter (invocation : Invocation) (files : Files) :
    (invocation.buildFilter files).run.Silent Event.IsOnPaths := by
  refine Attempt.silent_bind (silent_addRole ..) fun filter => ?_
  refine Attempt.silent_bind (silent_addRole ..) fun filter => ?_
  refine Attempt.silent_bind (silent_addRole ..) fun filter => ?_
  refine Attempt.silent_bind (silent_addSettings ..) fun filter => ?_
  refine Attempt.silent_bind (Attempt.silent_ofLogged
    (Logged.silent_emit (by simp [Event.IsOnPaths]))) fun _ => ?_
  exact Logged.silent_pure (Except.ok _)

end CommandLine.Invocation

namespace Filter

private theorem silent_askRules (role : Role) (path : Text) (options : MatchOptions)
    (rules : List Rule) :
    (askRules role path options rules).Silent Event.IsTally := by
  induction rules with
  | nil => exact Logged.silent_pure false
  | cons rule rest ih =>
    refine (Logged.silent_emit (by simp [Event.IsTally])).bind fun _ => ?_
    split
    · exact Logged.silent_pure true
    · exact ih

private theorem silent_ask (filter : Filter) (role : Role) (path : Text) (options : MatchOptions) :
    (filter.ask role path options).Silent Event.IsTally := by
  rw [ask]
  cases filter.effective? role with
  | none => exact Logged.silent_pure false
  | some rules => exact silent_askRules role path options rules

theorem silent_classify (filter : Filter) (path : Text) (options : MatchOptions) :
    (filter.classify path options).Silent Event.IsTally := by
  have hignores : ∀ hit miss : Verdict,
      (do return if ← filter.ask .ignores path options then hit else miss : Logged Verdict).Silent
        Event.IsTally := fun _ _ => (filter.silent_ask ..).bind fun _ => Logged.silent_pure _
  have hjudge : (filter.judge path options).Silent Event.IsTally := by
    refine (filter.silent_ask ..).bind fun excluded => ?_
    cases excluded with
    | true => exact Logged.silent_pure _
    | false =>
      cases filter.effective? .includes with
      | none => exact hignores ..
      | some rules =>
        refine (filter.silent_ask ..).bind fun included => ?_
        cases included with
        | true => exact Logged.silent_pure _
        | false => exact hignores ..
  exact hjudge.bind fun verdict =>
    (Logged.silent_emit (by simp [Event.IsTally])).bind fun _ => Logged.silent_pure verdict

end Filter

end PathFilter
