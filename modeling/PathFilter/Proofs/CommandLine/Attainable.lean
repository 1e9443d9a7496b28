import Mathlib.Tactic.SplitIfs
import PathFilter.Proofs.CommandLine.Steps

/-!
What holds of every command line that is read: its verbosity has a limit, the options for missing
patterns and paths stay off because no switch is for them, and a settings file and a repository come
together. Each step of the reader keeps the first two, and the last check of a command line settles
the third.
-/

set_option autoImplicit false
set_option relaxedAutoImplicit false

namespace PathFilter.CommandLine

namespace Invocation

/-- What a reader can have read so far. -/
structure Attainable (invocation : Invocation) : Prop where
  verbosity : invocation.verbosity ≤ 255
  missingPattern : invocation.options.missingPattern = false
  missingPath : invocation.options.missingPath = false

def Balanced (invocation : Invocation) : Prop :=
  invocation.settings.isSome = true ↔ invocation.repository.isSome = true

namespace Attainable

variable {invocation : Invocation}

theorem start : Attainable {} := ⟨by decide, rfl, rfl⟩

theorem turnOn (attainable : invocation.Attainable) (name : Switch) :
    (invocation.turnOn name).Attainable := by
  obtain ⟨hverbosity, hpattern, hpath⟩ := attainable
  cases name <;> exact ⟨hverbosity, hpattern, hpath⟩

theorem raiseVerbosity (attainable : invocation.Attainable) :
    invocation.raiseVerbosity.Attainable :=
  ⟨Nat.min_le_left _ _, attainable.missingPattern, attainable.missingPath⟩

theorem store (attainable : invocation.Attainable) (value : Bytes) (option : ValueOption) :
    (invocation.store value option).Attainable := by
  obtain ⟨hverbosity, hpattern, hpath⟩ := attainable
  cases option <;> exact ⟨hverbosity, hpattern, hpath⟩

theorem addPaths (attainable : invocation.Attainable) (paths : List Bytes) :
    (invocation.addPaths paths).Attainable :=
  ⟨attainable.verbosity, attainable.missingPattern, attainable.missingPath⟩

end Attainable

end Invocation

namespace Reader

variable {reader next : Reader} {invocation result : Invocation}

private theorem attainable_store (attainable : invocation.Attainable) {option : ValueOption}
    {value : Bytes} (h : store invocation option value = .ok result) : result.Attainable := by
  unfold store at h
  split_ifs at h
  obtain rfl := Except.ok.inj h
  exact attainable.store value option

private theorem attainable_settle (attainable : reader.invocation.Attainable)
    (h : reader.settle = .ok result) : result.Attainable := by
  unfold settle at h
  split at h
  · obtain rfl := Except.ok.inj h
    exact attainable
  · cases h
  · exact attainable_store attainable h

private theorem attainable_takeFlag (attainable : reader.invocation.Attainable)
    {option : CommandOption} (h : reader.takeFlag option = .ok next) :
    next.invocation.Attainable := by
  cases option with
  | switch name =>
    obtain ⟨settled, hsettle, h⟩ := bind_eq_ok.mp h
    have hsettled := attainable_settle attainable hsettle
    split_ifs at h
    · cases h
    · obtain rfl := Except.ok.inj h
      exact hsettled.turnOn name
  | verbose =>
    obtain ⟨settled, hsettle, h⟩ := bind_eq_ok.mp h
    obtain rfl := Except.ok.inj h
    exact (attainable_settle attainable hsettle).raiseVerbosity
  | value option =>
    obtain ⟨settled, hsettle, h⟩ := bind_eq_ok.mp h
    obtain rfl := Except.ok.inj h
    exact attainable_settle attainable hsettle

private theorem attainable_takeAttached (attainable : reader.invocation.Attainable)
    {option : ValueOption} {value : Bytes} (h : reader.takeAttached option value = .ok next) :
    next.invocation.Attainable := by
  obtain ⟨settled, hsettle, h⟩ := bind_eq_ok.mp h
  obtain ⟨stored, hstore, h⟩ := bind_eq_ok.mp h
  obtain rfl := Except.ok.inj h
  exact attainable_store (attainable_settle attainable hsettle) hstore

private theorem attainable_takeLong (attainable : reader.invocation.Attainable) {name : Bytes}
    {value? : Option Bytes} (h : reader.takeLong name value? = .ok next) :
    next.invocation.Attainable := by
  unfold takeLong at h
  split at h
  · cases h
  · exact attainable_takeAttached attainable h
  · cases h
  · exact attainable_takeFlag attainable h

private theorem attainable_takeCluster (attainable : reader.invocation.Attainable) {tail : Bytes}
    {letters : Text} (h : reader.takeCluster tail letters = .ok next) :
    next.invocation.Attainable := by
  induction letters generalizing reader with
  | nil =>
    unfold takeCluster at h
    split_ifs at h
    obtain rfl := Except.ok.inj h
    exact attainable
  | cons letter rest ih =>
    unfold takeCluster at h
    split at h
    · cases h
    · dsimp only at h
      split_ifs at h
      · exact attainable_takeFlag attainable h
      · exact attainable_takeAttached attainable h
    · split at h
      · cases h
      · next hflag => exact ih (attainable_takeFlag attainable hflag) h

private theorem attainable_takePlain (attainable : reader.invocation.Attainable) {argument : Bytes}
    (h : reader.takePlain argument = .ok next) : next.invocation.Attainable := by
  unfold takePlain at h
  split at h
  · obtain rfl := Except.ok.inj h
    exact attainable
  · obtain ⟨settled, hsettle, h⟩ := bind_eq_ok.mp h
    obtain rfl := Except.ok.inj h
    exact (attainable_settle attainable hsettle).addPaths [argument]

private theorem attainable_takePaths (attainable : reader.invocation.Attainable)
    {arguments : List Bytes} (h : reader.takePaths arguments = .ok result) : result.Attainable := by
  obtain ⟨settled, hsettle, h⟩ := bind_eq_ok.mp h
  obtain rfl := Except.ok.inj h
  exact (attainable_settle attainable hsettle).addPaths arguments

theorem Step.attainable {argument : Bytes} (step : Step reader argument next)
    (attainable : reader.invocation.Attainable) : next.invocation.Attainable := by
  cases step with
  | unread _ => exact attainable
  | long _ _ htake => exact attainable_takeLong attainable htake
  | cluster _ _ htake => exact attainable_takeCluster attainable htake
  | plain _ _ htake => exact attainable_takePlain attainable htake

private theorem attainable_takeAll (attainable : reader.invocation.Attainable)
    {arguments : List Bytes} (h : takeAll reader arguments = .ok result) : result.Attainable := by
  induction arguments generalizing reader with
  | nil =>
    rw [takeAll] at h
    exact attainable_settle attainable h
  | cons argument rest ih =>
    rcases takeAll_cons_eq_ok_iff.mp h with ⟨-, hpaths⟩ | ⟨next, step, hrest⟩
    · exact attainable_takePaths attainable hpaths
    · exact ih (step.attainable attainable) hrest

end Reader

theorem checkCompanions_eq_ok_iff {invocation result : Invocation} :
    checkCompanions invocation = .ok result ↔ result = invocation ∧ invocation.Balanced := by
  unfold checkCompanions Invocation.Balanced
  cases invocation.settings <;> cases invocation.repository <;> simp [eq_comm]

/-- Whatever is read is attainable, and a settings file and a repository come together. -/
theorem attainable_of_parse {arguments : List Bytes} {invocation : Invocation}
    (h : parse arguments = .ok invocation) : invocation.Attainable ∧ invocation.Balanced := by
  obtain ⟨result, htake, hcheck⟩ := bind_eq_ok.mp h
  obtain ⟨rfl, balanced⟩ := checkCompanions_eq_ok_iff.mp hcheck
  exact ⟨Reader.attainable_takeAll Invocation.Attainable.start htake, balanced⟩

end PathFilter.CommandLine
