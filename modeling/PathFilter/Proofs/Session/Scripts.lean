import PathFilter.Proofs.Session.Loading
import PathFilter.Proofs.Session.Reports
import PathFilter.Proofs.Session.Writing

/-!
What a run is going to write. Everything that a run reads is read before its first write, so its
script does not depend on the output. A run without a script writes nothing and tells nothing of
paths; any other one writes its script as far as the output takes it.
-/

set_option autoImplicit false
set_option relaxedAutoImplicit false

namespace PathFilter

namespace CommandLine.Invocation

theorem exists_buildFilter_error_iff {invocation : Invocation} {files : Files} :
    (∃ error, (invocation.buildFilter files).run.value = .error error) ↔
      ∃ load ∈ invocation.loads, ¬ load.Succeeds files := by
  have hfails : (∃ load ∈ invocation.loads, ¬ load.Succeeds files) ↔
      firstFailure? files invocation.loads ≠ none := by
    rw [ne_eq, firstFailure?_eq_none_iff]
    simp
  rw [value_buildFilter, hfails]
  cases firstFailure? files invocation.loads <;> simp [Attempt.settled]

end CommandLine.Invocation

namespace Session

open CommandLine (Invocation)

variable {session : Session} {invocation : Invocation}

/-- The arguments of a run ask for paths to be classified, by neither `--help` nor `--version`. -/
structure Classifies (session : Session) (invocation : Invocation) : Prop where
  parse_eq : CommandLine.parse session.arguments = .ok invocation
  help_eq : invocation.help = false
  version_eq : invocation.version = false

/-- Why a run is refused before it writes: its arguments are wrong, a file that it has loaded fails,
or its input, where the paths come from there, is no text. -/
inductive Refused (session : Session) : Prop
  | arguments {error : CommandLine.ArgumentError} :
      CommandLine.parse session.arguments = .error error → Refused session
  | load {invocation : Invocation} {load : CommandLine.Load} : session.Classifies invocation →
      load ∈ invocation.loads → ¬ load.Succeeds session.files → Refused session
  | input {invocation : Invocation} : session.Classifies invocation → invocation.paths = [] →
      (∀ text, session.input ≠ Utf8.encode text) → Refused session

/-- What a run is going to write, or why it is refused. -/
def script (session : Session) : Except RunError Text :=
  match CommandLine.parse session.arguments with
  | .error error => .error (.arguments error)
  | .ok invocation =>
    if invocation.help then .ok CommandLine.helpText
    else if invocation.version then .ok (CommandLine.versionText ++ ['\n'])
    else (session.prepare invocation).run.value.map fun (filter, paths) =>
      paths.flatMap (invocation.recordOf filter)

def act (session : Session) (sink : Sink) : Logged (Written Unit) :=
  match CommandLine.parse session.arguments with
  | .error error => pure (sink, .error (.arguments error))
  | .ok invocation => session.perform invocation sink

section Preparation

theorem value_prepare (session : Session) (invocation : Invocation) :
    (session.prepare invocation).run.value =
      (invocation.buildFilter session.files).run.value.bind fun filter =>
        (session.collectPaths invocation).map fun paths => (filter, paths) := by
  rw [prepare, Attempt.value_bind]
  congr
  funext filter
  rw [Attempt.value_bind]
  cases session.collectPaths invocation <;> rfl

theorem collectPaths_of_text {text : Text}
    (readable : invocation.paths = [] → session.input = Utf8.encode text) :
    session.collectPaths invocation =
      .ok (if invocation.paths = [] then PathList.pathsOf text else invocation.paths) := by
  rw [collectPaths]
  by_cases hpaths : invocation.paths = []
  · rw [if_pos (by simp [hpaths]), if_pos hpaths, readable hpaths, PathList.read_encode]
  · rw [if_neg (by simp [hpaths]), if_neg hpaths]

private theorem exists_collectPaths_error_iff :
    (∃ error, session.collectPaths invocation = .error error) ↔
      invocation.paths = [] ∧ ∀ text, session.input ≠ Utf8.encode text := by
  by_cases hpaths : invocation.paths = []
  · have hread : (∃ failure, PathList.read session.input = .error failure) ↔
        ∀ text, session.input ≠ Utf8.encode text := by simp [PathList.read_eq_error_iff]
    rw [collectPaths, if_pos (by simp [hpaths]), ← hread]
    cases PathList.read session.input <;> simp [hpaths]
  · rw [collectPaths, if_neg (by simp [hpaths])]
    simp [hpaths]

private theorem exists_prepare_error_iff :
    (∃ error, (session.prepare invocation).run.value = .error error) ↔
      (∃ load ∈ invocation.loads, ¬ load.Succeeds session.files) ∨
        invocation.paths = [] ∧ ∀ text, session.input ≠ Utf8.encode text := by
  rw [value_prepare, ← Invocation.exists_buildFilter_error_iff, ← exists_collectPaths_error_iff]
  cases (invocation.buildFilter session.files).run.value with
  | error error => simp [Except.bind]
  | ok filter => cases session.collectPaths invocation <;> simp [Except.bind, Except.map]

theorem Classifies.script_eq (classifies : session.Classifies invocation) :
    session.script = (session.prepare invocation).run.value.map fun (filter, paths) =>
      paths.flatMap (invocation.recordOf filter) := by
  simp [script, classifies.parse_eq, classifies.help_eq, classifies.version_eq]

theorem Classifies.exists_script_error_iff (classifies : session.Classifies invocation) :
    (∃ error, session.script = .error error) ↔
      (∃ load ∈ invocation.loads, ¬ load.Succeeds session.files) ∨
        invocation.paths = [] ∧ ∀ text, session.input ≠ Utf8.encode text := by
  rw [classifies.script_eq, ← exists_prepare_error_iff]
  cases (session.prepare invocation).run.value <;> simp [Except.map]

private theorem classifies_of_script_error {error : RunError} (h : session.script = .error error)
    (parsed : CommandLine.parse session.arguments = .ok invocation) :
    session.Classifies invocation := by
  rw [script, parsed] at h
  cases hhelp : invocation.help with
  | true => simp [hhelp] at h
  | false =>
    cases hversion : invocation.version with
    | true => simp [hhelp, hversion] at h
    | false => exact ⟨parsed, hhelp, hversion⟩

theorem exists_script_error_iff : (∃ error, session.script = .error error) ↔ session.Refused := by
  constructor
  · rintro ⟨error, herror⟩
    cases hparse : CommandLine.parse session.arguments with
    | error wrong => exact .arguments hparse
    | ok invocation =>
      have classifies := classifies_of_script_error herror hparse
      rcases classifies.exists_script_error_iff.mp ⟨error, herror⟩ with
        ⟨load, hload, hfails⟩ | ⟨hpaths, hinput⟩
      · exact .load classifies hload hfails
      · exact .input classifies hpaths hinput
  · intro refused
    cases refused with
    | @arguments error hparse => exact ⟨.arguments error, by simp [script, hparse]⟩
    | load classifies hload hfails =>
      exact classifies.exists_script_error_iff.mpr (.inl ⟨_, hload, hfails⟩)
    | input classifies hpaths hinput =>
      exact classifies.exists_script_error_iff.mpr (.inr ⟨hpaths, hinput⟩)

end Preparation

section Batches

variable {sink : Sink}

theorem silent_prepare (session : Session) (invocation : Invocation) :
    (session.prepare invocation).run.Silent Event.IsOnPaths := by
  refine Attempt.silent_bind (invocation.silent_buildFilter session.files) fun filter => ?_
  refine Attempt.silent_bind (Logged.silent_pure _) fun paths => ?_
  exact Logged.silent_pure (Except.ok (filter, paths))

private theorem silent_classifyPaths (invocation : Invocation) (filter : Filter) (sink : Sink)
    (tally : Tally) (paths : List Text) :
    (classifyPaths invocation filter sink tally paths).Silent Event.IsTally := by
  induction paths generalizing sink tally with
  | nil => exact Logged.silent_pure _
  | cons path rest ih =>
    refine (filter.silent_classify path .none).bind fun verdict => ?_
    by_cases hprinted : isPrinted invocation verdict
    · rw [if_pos hprinted]
      rcases writeRecord sink ⟨path, verdict⟩ (.ofInvocation invocation) with ⟨after, error | value⟩
      · exact Logged.silent_pure _
      · exact ih after _
    · rw [if_neg hprinted]
      exact ih sink _

private theorem classifyBatch_of_error {error : RunError} (sink : Sink)
    (h : (session.prepare invocation).run.value = .error error) :
    (session.classifyBatch invocation sink).value = (sink, .error error) ∧
      (session.classifyBatch invocation sink).Silent Event.IsOnPaths := by
  constructor
  · rw [classifyBatch, Logged.value_bind, h]
    rfl
  · constructor
    intro event hevent
    rw [classifyBatch, Logged.events_bind, h] at hevent
    exact (session.silent_prepare invocation).not_kind event (by simpa using hevent)

private theorem prints_classifyBatch {filter : Filter} {paths : List Text}
    (h : (session.prepare invocation).run.value = .ok (filter, paths)) :
    Prints sink (Utf8.encode (paths.flatMap (invocation.recordOf filter))) ()
      (session.classifyBatch invocation sink).value := by
  have hvalue : (session.classifyBatch invocation sink).value =
      andThen (classifyPaths invocation filter sink .empty paths).value
        fun after _ => (after, .ok ()) := by
    rw [classifyBatch, Logged.value_bind, h]
    simp only [Logged.value_bind, andThen]
    rcases (classifyPaths invocation filter sink .empty paths).value with
      ⟨after, error | tally⟩ <;> rfl
  have hbatch : Prints sink (Utf8.encode (paths.flatMap (invocation.recordOf filter)) ++ []) ()
      (andThen (classifyPaths invocation filter sink .empty paths).value
        fun after _ => (after, .ok ())) :=
    (prints_classifyPaths ..).andThen fun after => prints_nothing after ()
  rwa [List.append_nil, ← hvalue] at hbatch

private theorem classifyBatch_tally_iff :
    (∃ event ∈ (session.classifyBatch invocation sink).events, event.IsTally) ↔
      (session.classifyBatch invocation sink).value.2 = .ok () := by
  cases hprepare : (session.prepare invocation).run.value with
  | error error =>
    obtain ⟨hvalue, hsilent⟩ := classifyBatch_of_error sink hprepare
    rw [hvalue]
    constructor
    · rintro ⟨event, hevent, htally⟩
      exact absurd htally.isOnPaths (hsilent.not_kind event hevent)
    · simp
  | ok prepared =>
    obtain ⟨filter, paths⟩ := prepared
    -- neither what is read nor a verdict is a tally: it comes after the last record only
    have hread :=
      ((session.silent_prepare invocation).mono fun _ => Event.IsTally.isOnPaths).not_kind
    have hpaths := (silent_classifyPaths invocation filter sink .empty paths).not_kind
    rw [classifyBatch, Logged.events_bind, Logged.value_bind, hprepare]
    simp only [Logged.events_bind, Logged.value_bind]
    rcases (classifyPaths invocation filter sink .empty paths).value with ⟨after, error | tally⟩
    · constructor
      · rintro ⟨event, hevent, htally⟩
        simp only [Logged.events_pure, List.append_nil, List.mem_append] at hevent
        rcases hevent with hevent | hevent
        · exact absurd htally (hread event hevent)
        · exact absurd htally (hpaths event hevent)
      · simp
    · constructor
      · exact fun _ => rfl
      · exact fun _ => ⟨.batchClassified tally, by simp, trivial⟩

end Batches

section Acts

variable {sink : Sink}

theorem Classifies.act_eq (classifies : session.Classifies invocation) (sink : Sink) :
    session.act sink = session.classifyBatch invocation sink := by
  simp [act, classifies.parse_eq, perform, classifies.help_eq, classifies.version_eq]

theorem act_of_script_error {error : RunError} (sink : Sink) (h : session.script = .error error) :
    (session.act sink).value = (sink, .error error) ∧
      (session.act sink).Silent Event.IsOnPaths := by
  cases hparse : CommandLine.parse session.arguments with
  | error wrong =>
    rw [script, hparse, Except.error.injEq] at h
    rw [act, hparse, ← h]
    exact ⟨rfl, Logged.silent_pure _⟩
  | ok invocation =>
    have classifies := classifies_of_script_error h hparse
    have hprepare : (session.prepare invocation).run.value = .error error := by
      rw [classifies.script_eq] at h
      cases hvalue : (session.prepare invocation).run.value with
      | error other => simpa [hvalue, Except.map] using h
      | ok prepared => simp [hvalue, Except.map] at h
    rw [classifies.act_eq]
    exact classifyBatch_of_error sink hprepare

theorem prints_act {text : Text} (sink : Sink) (h : session.script = .ok text) :
    Prints sink (Utf8.encode text) () (session.act sink).value := by
  cases hparse : CommandLine.parse session.arguments with
  | error wrong => simp [script, hparse] at h
  | ok invocation =>
    rw [script, hparse] at h
    rw [act, hparse]
    simp only [perform] at h ⊢
    by_cases hhelp : invocation.help = true
    · rw [if_pos hhelp, Except.ok.injEq] at h
      rw [if_pos hhelp, ← h]
      have hprints := prints_writePieces sink [CommandLine.helpText] .output
      simpa using hprints
    · rw [if_neg hhelp] at h ⊢
      by_cases hversion : invocation.version = true
      · rw [if_pos hversion, Except.ok.injEq] at h
        rw [if_pos hversion, ← h]
        exact prints_writePieces sink [CommandLine.versionText, ['\n']] .output
      · rw [if_neg hversion] at h ⊢
        cases hprepare : (session.prepare invocation).run.value with
        | error error => simp [hprepare, Except.map] at h
        | ok prepared =>
          rw [hprepare, Except.map, Except.ok.injEq] at h
          rw [← h]
          exact prints_classifyBatch hprepare

theorem act_tally_iff :
    (∃ event ∈ (session.act sink).events, event.IsTally) ↔
      (∃ invocation, session.Classifies invocation) ∧ (session.act sink).value.2 = .ok () := by
  by_cases hclassifies : ∃ invocation, session.Classifies invocation
  · obtain ⟨invocation, classifies⟩ := hclassifies
    rw [classifies.act_eq, classifyBatch_tally_iff]
    exact ⟨fun h => ⟨⟨invocation, classifies⟩, h⟩, fun h => h.2⟩
  · have hnone : (session.act sink).events = [] := by
      rw [act]
      cases hparse : CommandLine.parse session.arguments with
      | error wrong => rfl
      | ok invocation =>
        simp only [perform]
        cases hhelp : invocation.help with
        | true => rfl
        | false =>
          cases hversion : invocation.version with
          | true => rfl
          | false => exact absurd ⟨invocation, hparse, hhelp, hversion⟩ hclassifies
    rw [hnone]
    exact ⟨fun ⟨event, hevent, _⟩ => absurd hevent (by simp), fun h => absurd h.1 hclassifies⟩

end Acts

end Session

end PathFilter
