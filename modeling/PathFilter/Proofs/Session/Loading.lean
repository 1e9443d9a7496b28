import PathFilter.Proofs.Filter.Loads
import PathFilter.Proofs.Session.Inputs
import PathFilter.Session.Build

set_option autoImplicit false
set_option relaxedAutoImplicit false

namespace PathFilter

namespace Attempt

variable {α β : Type}

def settled (failure? : Option RunError) (value : α) : Except RunError α :=
  match failure? with
  | some error => .error error
  | none => .ok value

theorem value_bind (first : Attempt α) (next : α → Attempt β) :
    (first >>= next).run.value = first.run.value.bind fun value => (next value).run.value := by
  cases h : first.run.value <;> simp [ExceptT.run_bind, h, Except.bind]

private theorem value_bind_of_settled {first : Attempt α} {next : α → Attempt β}
    {failure? later? : Option RunError} {value : α} {result : β}
    (hfirst : first.run.value = settled failure? value)
    (hnext : (next value).run.value = settled later? result) :
    (first >>= next).run.value = settled (failure?.or later?) result := by
  rw [value_bind, hfirst]
  cases failure? with
  | some error => rfl
  | none => exact hnext

end Attempt

def Files.textOf (files : Files) (name : FileName) : Text :=
  match files.readText name with
  | .ok text => text
  | .error _ => []

namespace CommandLine

/-- A file that a command line has loaded, as a pattern file or as settings. -/
inductive Load
  | patterns (file : FileName)
  | settings (file : FileName)
  deriving DecidableEq, Repr

namespace Load

def file : Load → FileName
  | .patterns file | .settings file => file

def Succeeds (files : Files) : Load → Prop
  | .patterns file => ∃ text, files.Holds file text
  | .settings file =>
    ∃ text settings, files.Holds file text ∧ Settings.parse text (some file) = .ok settings

def failure? (files : Files) : Load → Option RunError
  | .patterns file =>
    match files.readText file with
    | .error failure => some (.filter (.unreadable file failure))
    | .ok _ => none
  | .settings file =>
    match files.readText file with
    | .error failure => some (.settings (.unreadable file failure))
    | .ok text =>
      match Settings.parse text (some file) with
      | .error error => some (.settings error)
      | .ok _ => none

variable {files : Files} {load : Load} {error : RunError}

private theorem failure?_eq_none_iff : load.failure? files = none ↔ load.Succeeds files := by
  cases load with
  | patterns file =>
    simp only [Succeeds, ← Files.readText_eq_ok_iff, failure?]
    cases files.readText file <;> simp
  | settings file =>
    simp only [Succeeds, ← Files.readText_eq_ok_iff, failure?]
    cases files.readText file with
    | error failure => simp
    | ok text => cases hparse : Settings.parse text (some file) <;> simp [hparse]

end Load

namespace Invocation

def settingsLoads (invocation : Invocation) : List Load :=
  match invocation.settings, invocation.repository with
  | some file, some _ => [.settings file]
  | _, _ => []

def loads (invocation : Invocation) : List Load :=
  invocation.includeFiles.map .patterns ++ invocation.excludeFiles.map .patterns ++
    invocation.ignoreFiles.map .patterns ++ invocation.settingsLoads

def settingsIgnores (invocation : Invocation) (texts : FileName → Text) : List Text :=
  match invocation.settings, invocation.repository with
  | some file, some repository =>
    match Settings.parse (texts file) (some file) with
    | .ok settings => settings.ignores repository
    | .error _ => []
  | _, _ => []

def filePatterns (texts : FileName → Text) (names : List FileName) : List Text :=
  names.flatMap fun name => PatternFile.patterns (texts name)

/-- The patterns that a command line describes for a role, if `texts` are the texts of the files:
its own ones, those of its pattern files, and for ignored paths those of the settings. -/
def described (invocation : Invocation) (texts : FileName → Text) : Role → List Text
  | .includes => invocation.includes ++ filePatterns texts invocation.includeFiles
  | .excludes => invocation.excludes ++ filePatterns texts invocation.excludeFiles
  | .ignores =>
    invocation.ignores ++ filePatterns texts invocation.ignoreFiles ++
      invocation.settingsIgnores texts
  | .reserved => []

def firstFailure? (files : Files) (loads : List Load) : Option RunError :=
  loads.findSome? (Load.failure? files)

private theorem firstFailure?_cons (files : Files) (load : Load) (loads : List Load) :
    firstFailure? files (load :: loads) =
      (load.failure? files).or (firstFailure? files loads) := by
  rw [firstFailure?, List.findSome?_cons]
  cases load.failure? files <;> rfl

private theorem firstFailure?_append (files : Files) (earlier later : List Load) :
    firstFailure? files (earlier ++ later) =
      (firstFailure? files earlier).or (firstFailure? files later) :=
  List.findSome?_append

theorem firstFailure?_eq_none_iff {files : Files} {loads : List Load} :
    firstFailure? files loads = none ↔ ∀ load ∈ loads, load.Succeeds files := by
  simp only [firstFailure?, List.findSome?_eq_none_iff, Load.failure?_eq_none_iff]

section Stages

variable (files : Files) (role : Role) (options : MatchOptions) (filter : Filter)

private theorem value_addFile (name : FileName) :
    (Attempt.ofResult RunError.filter (filter.addFile files role name options) >>=
        fun added => pure added.1 : Attempt Filter).run.value =
      Attempt.settled ((Load.patterns name).failure? files)
        (filter.addAll role (PatternFile.patterns (files.textOf name)) options).value := by
  rw [Attempt.value_bind, Files.textOf, Load.failure?, Filter.addFile]
  cases files.readText name <;> rfl

private theorem value_addFiles (names : List FileName) :
    (addFiles files role options filter names).run.value =
      Attempt.settled (firstFailure? files (names.map .patterns))
        (filter.addAll role (filePatterns files.textOf names) options).value := by
  induction names generalizing filter with
  | nil => rfl
  | cons name names ih =>
    rw [addFiles, List.foldlM_cons, List.map_cons, firstFailure?_cons, filePatterns,
      List.flatMap_cons, Filter.value_addAll_append]
    exact Attempt.value_bind_of_settled (value_addFile files role options filter name) (ih _)

private theorem value_addRole (patterns : List Text) (names : List FileName) :
    (addRole files role options patterns names filter).run.value =
      Attempt.settled (firstFailure? files (names.map .patterns))
        (filter.addAll role (patterns ++ filePatterns files.textOf names) options).value := by
  rw [Filter.value_addAll_append]
  exact value_addFiles files role options _ names

private theorem value_addSettings (invocation : Invocation) :
    (invocation.addSettings files filter).run.value =
      Attempt.settled (firstFailure? files invocation.settingsLoads)
        (filter.addAll .ignores (invocation.settingsIgnores files.textOf)
          invocation.options).value := by
  rw [addSettings, settingsLoads, settingsIgnores]
  cases invocation.settings with
  | none => rfl
  | some file =>
    cases invocation.repository with
    | none => rfl
    | some repository =>
      rw [firstFailure?_cons, Load.failure?, Attempt.value_bind, Settings.ofFile]
      simp only [Files.textOf]
      cases files.readText file with
      | error failure => rfl
      | ok text =>
        simp only
        cases Settings.parse text (some file) <;> rfl

end Stages

/-- The filter that a command line describes. -/
def filterFor (invocation : Invocation) (files : Files) : Filter :=
  let add (role : Role) (filter : Filter) : Filter :=
    (filter.addAll role (invocation.described files.textOf role) invocation.options).value
  (add .ignores (add .excludes (add .includes .blank))).setDisabled invocation.disabled

theorem value_buildFilter (invocation : Invocation) (files : Files) :
    (invocation.buildFilter files).run.value =
      Attempt.settled (firstFailure? files invocation.loads) (invocation.filterFor files) := by
  have hloads : firstFailure? files invocation.loads =
      (firstFailure? files (invocation.includeFiles.map .patterns)).or
        ((firstFailure? files (invocation.excludeFiles.map .patterns)).or
          ((firstFailure? files (invocation.ignoreFiles.map .patterns)).or
            ((firstFailure? files invocation.settingsLoads).or none))) := by
    simp only [loads, firstFailure?_append, Option.or_assoc, Option.or_none]
  rw [hloads, buildFilter]
  refine Attempt.value_bind_of_settled (value_addRole ..) ?_
  refine Attempt.value_bind_of_settled (value_addRole ..) ?_
  refine Attempt.value_bind_of_settled (value_addRole ..) ?_
  refine Attempt.value_bind_of_settled (value_addSettings ..) ?_
  rw [← Filter.value_addAll_append]
  rfl

end Invocation

end CommandLine

end PathFilter
