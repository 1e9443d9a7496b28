import PathFilter.Proofs.Session.Scripts

set_option autoImplicit false
set_option relaxedAutoImplicit false

namespace PathFilter

namespace RunError

private theorem diagnostic_begins (error : RunError) : "vcfilter: ".toList <+: error.diagnostic :=
  ⟨_, (List.append_assoc ..).symm⟩

private theorem diagnostic_ne_nil (error : RunError) : error.diagnostic ≠ [] := by
  obtain ⟨wording, hwording⟩ := error.diagnostic_begins
  rw [← hwording]
  exact List.cons_ne_nil _ _

end RunError

private theorem Event.exists_tally_iff {events : List Event} :
    (∃ event ∈ events, event.IsTally) ↔ ∃ tally, .batchClassified tally ∈ events := by
  constructor
  · rintro ⟨event, hevent, htally⟩
    cases event with
    | batchClassified tally => exact ⟨tally, hevent⟩
    | _ => exact htally.elim
  · rintro ⟨tally, hevent⟩
    exact ⟨.batchClassified tally, hevent, trivial⟩

namespace Session

open CommandLine (Invocation)

variable {session : Session} {invocation : Invocation}

def exit : Written Unit → Logged Outcome
  | (sink, .ok ()) => pure ⟨0, sink.accepted, []⟩
  | (sink, .error error) => do
    Logged.emit .runFailed
    pure ⟨1, sink.accepted, error.diagnostic⟩

theorem exit_code_eq_zero_iff {written : Written Unit} :
    (exit written).value.code = 0 ↔ written.2 = .ok () := by
  rcases written with ⟨sink, error | value⟩ <;> simp [exit]

theorem events_exit_of_ok {written : Written Unit} (ended : written.2 = .ok ()) :
    (exit written).events = [] := by
  obtain ⟨sink, error | value⟩ := written
  · exact absurd ended (by simp)
  · rfl

theorem run_eq (session : Session) :
    session.run = session.act { room? := session.room? } >>= exit := by
  rw [run, act]
  cases CommandLine.parse session.arguments with
  | error error => rfl
  | ok invocation =>
    refine congrArg (session.perform invocation { room? := session.room? } >>= ·) ?_
    funext written
    rcases written with ⟨sink, error | value⟩ <;> rfl

def withRoom (session : Session) (room? : Option Nat) : Session := { session with room? := room? }

private theorem script_withRoom (session : Session) (room? : Option Nat) :
    (session.withRoom room?).script = session.script := rfl

private theorem classifies_withRoom_iff {room? : Option Nat} :
    (session.withRoom room?).Classifies invocation ↔ session.Classifies invocation :=
  ⟨fun ⟨parsed, help, version⟩ => ⟨parsed, help, version⟩,
    fun ⟨parsed, help, version⟩ => ⟨parsed, help, version⟩⟩

private theorem silent_exit (written : Written Unit) : (exit written).Silent Event.IsOnPaths := by
  rcases written with ⟨sink, error | value⟩
  · exact (Logged.silent_emit (by simp [Event.IsOnPaths])).bind fun _ => Logged.silent_pure _
  · exact Logged.silent_pure _

private theorem run_of_script_error {error : RunError} (h : session.script = .error error) :
    session.run.value = ⟨1, [], error.diagnostic⟩ ∧ session.run.Silent Event.IsOnPaths := by
  obtain ⟨hvalue, hsilent⟩ := act_of_script_error { room? := session.room? } h
  rw [run_eq]
  constructor
  · rw [Logged.value_bind, hvalue]
    rfl
  · exact hsilent.bind silent_exit

/-- A run with something to write exits with 0 if and only if the output takes all of it. -/
theorem run_of_script_ok {text : Text} (h : session.script = .ok text) :
    let wrote := ({ room? := session.room? } : Sink).write (Utf8.encode text)
    session.run.value.output = wrote.1.accepted ∧
      (wrote.2 = true → session.run.value.code = 0 ∧ session.run.value.diagnostic = []) ∧
      (wrote.2 = false → session.run.value.code = 1 ∧ session.run.value.diagnostic ≠ []) := by
  intro wrote
  have hprints := prints_act { room? := session.room? } h
  rw [run_eq, Logged.value_bind]
  cases hact : (session.act { room? := session.room? }).value with
  | mk after result =>
    rw [hact] at hprints
    have hafter : after = wrote.1 := hprints.sink_eq
    cases hfits : wrote.2 with
    | true =>
      have hok : result = .ok () := hprints.ok_of_fits hfits
      rw [hok, hafter]
      simp [exit]
    | false =>
      obtain ⟨error, herror⟩ := hprints.error_of_full hfits
      have hresult : result = .error error := herror
      rw [hresult, hafter]
      simp [exit, error.diagnostic_ne_nil]

theorem run_of_code_eq_zero (succeeds : session.run.value.code = 0) :
    ∃ text, session.script = .ok text ∧
      (({ room? := session.room? } : Sink).write (Utf8.encode text)).2 = true := by
  cases hscript : session.script with
  | error error =>
    rw [(run_of_script_error hscript).1] at succeeds
    exact absurd succeeds Nat.one_ne_zero
  | ok text =>
    refine ⟨text, rfl, ?_⟩
    obtain ⟨-, -, hfull⟩ := run_of_script_ok hscript
    by_contra hfits
    have hcode : session.run.value.code = 1 := (hfull (Bool.eq_false_iff.mpr hfits)).1
    rw [succeeds] at hcode
    exact absurd hcode Nat.zero_ne_one

theorem run_of_fits {text : Text} (h : session.script = .ok text)
    (fits : (({ room? := session.room? } : Sink).write (Utf8.encode text)).2 = true) :
    session.run.value = ⟨0, Utf8.encode text, []⟩ := by
  obtain ⟨houtput, hok, -⟩ := run_of_script_ok h
  obtain ⟨hcode, hdiagnostic⟩ := hok fits
  rw [Sink.accepted_write_of_fits fits] at houtput
  calc session.run.value
      = ⟨session.run.value.code, session.run.value.output, session.run.value.diagnostic⟩ := rfl
    _ = ⟨0, Utf8.encode text, []⟩ := by rw [houtput, hcode, hdiagnostic]; rfl

private theorem run_of_unlimited {text : Text} (h : session.script = .ok text)
    (unlimited : session.room? = none) : session.run.value = ⟨0, Utf8.encode text, []⟩ :=
  run_of_fits h (by rw [unlimited]; rfl)

private theorem run_tally_iff (session : Session) :
    (∃ tally, .batchClassified tally ∈ session.run.events) ↔
      (∃ invocation, session.Classifies invocation) ∧ session.run.value.code = 0 := by
  rw [← Event.exists_tally_iff, run_eq, Logged.value_bind, Logged.events_bind,
    exit_code_eq_zero_iff, ← act_tally_iff]
  constructor
  · rintro ⟨event, hevent, htally⟩
    rcases List.mem_append.mp hevent with hevent | hevent
    · exact ⟨event, hevent, htally⟩
    · exact absurd htally.isOnPaths ((silent_exit _).not_kind event hevent)
  · rintro ⟨event, hevent, htally⟩
    exact ⟨event, List.mem_append_left _ hevent, htally⟩

/-- A run whose output takes everything fails as a whole. It exits with 1 if and only if it is
refused, which is when it gives a diagnostic; it has then written nothing and told nothing of paths.
-/
theorem run_all_or_nothing (session : Session) (unlimited : session.room? = none) :
    let outcome := session.run.value
    (outcome.code = 0 ∨ outcome.code = 1) ∧ (outcome.code = 1 ↔ outcome.diagnostic ≠ []) ∧
      (outcome.code = 1 ↔ session.Refused) ∧
      (outcome.code = 1 → "vcfilter: ".toList <+: outcome.diagnostic ∧ outcome.output = [] ∧
        ∀ event ∈ session.run.events, ¬ event.IsOnPaths) := by
  intro outcome
  rw [← exists_script_error_iff]
  cases hscript : session.script with
  | error error =>
    obtain ⟨hrun, hsilent⟩ := run_of_script_error hscript
    have houtcome : outcome = ⟨1, [], error.diagnostic⟩ := hrun
    rw [houtcome]
    refine ⟨.inr rfl, ?_, ?_, ?_⟩
    · exact iff_of_true rfl error.diagnostic_ne_nil
    · exact iff_of_true rfl ⟨error, rfl⟩
    · exact fun _ => ⟨error.diagnostic_begins, rfl, hsilent.not_kind⟩
  | ok text =>
    have houtcome : outcome = ⟨0, Utf8.encode text, []⟩ := run_of_unlimited hscript unlimited
    rw [houtcome]
    simp

theorem run_all_or_nothing_lateBytes :
    let session : Session :=
      { arguments := [Utf8.encode "vcfilter".toList]
        files := .ofReadings []
        input := Utf8.encode "a.c\nb.c\n".toList ++ [0xff] }
    session.run.value.code = 1 ∧ session.Refused ∧ session.run.value.output = [] ∧
      ∀ event ∈ session.run.events, ¬ event.IsOnPaths := by
  intro session
  have hcode : session.run.value.code = 1 := by decide +kernel
  obtain ⟨-, -, hrefused, hnothing⟩ := run_all_or_nothing session rfl
  exact ⟨hcode, hrefused.mp hcode, (hnothing hcode).2⟩

/-- A run that succeeds if its output takes everything, and whose output takes some number of bytes.
It leaves the beginning of the same bytes, and fails with a diagnostic if and only if bytes are left
over. It reports a tally if and only if it classifies paths and no bytes are left over. -/
theorem run_withRoom (room : Nat) (succeeds : (session.withRoom none).run.value.code = 0) :
    let bytes := (session.withRoom none).run.value.output
    let limited := (session.withRoom (some room)).run
    limited.value.output = bytes.take room ∧
      limited.value.code = (if bytes.length ≤ room then 0 else 1) ∧
      (limited.value.diagnostic ≠ [] ↔ room < bytes.length) ∧
      ((∃ tally, .batchClassified tally ∈ limited.events) ↔
        bytes.length ≤ room ∧ ∃ invocation, session.Classifies invocation) := by
  intro bytes limited
  cases hscript : session.script with
  | error error =>
    have hrefused : (session.withRoom none).run.value = ⟨1, [], error.diagnostic⟩ :=
      (run_of_script_error ((script_withRoom session none).trans hscript)).1
    rw [hrefused] at succeeds
    exact absurd succeeds Nat.one_ne_zero
  | ok text =>
    have hall : (session.withRoom none).run.value = ⟨0, Utf8.encode text, []⟩ :=
      run_of_unlimited ((script_withRoom session none).trans hscript) rfl
    have hbytes : bytes = Utf8.encode text := congrArg Outcome.output hall
    obtain ⟨houtput, hfits, hfull⟩ :=
      run_of_script_ok ((script_withRoom session (some room)).trans hscript)
    have htally : (∃ tally, .batchClassified tally ∈ limited.events) ↔
        (∃ invocation, session.Classifies invocation) ∧ limited.value.code = 0 := by
      simpa only [classifies_withRoom_iff] using run_tally_iff (session.withRoom (some room))
    rw [hbytes, htally]
    refine ⟨houtput.trans (Sink.accepted_write ..), ?_⟩
    by_cases hroom : (Utf8.encode text).length ≤ room
    · have hended : limited.value.code = 0 ∧ limited.value.diagnostic = [] :=
        hfits (decide_eq_true hroom)
      rw [if_pos hroom, hended.1, hended.2]
      simp [hroom]
    · have hended : limited.value.code = 1 ∧ limited.value.diagnostic ≠ [] :=
        hfull (decide_eq_false hroom)
      have hleft : room < (Utf8.encode text).length := by omega
      rw [if_neg hroom, hended.1]
      refine ⟨rfl, iff_of_true hended.2 hleft, ?_⟩
      simp [hroom]

/-- An output that is full between the two characters of an escape. -/
theorem run_withRoom_insideEscape :
    let session : Session :=
      { arguments := ["vcfilter", "--json", "d\"e"].map fun word => Utf8.encode word.toList
        files := .ofReadings [] }
    let limited := (session.withRoom (some 11)).run
    (session.withRoom none).run.value.code = 0 ∧
      limited.value.output = Utf8.encode "\x7b\"path\":\"d\\".toList ∧
      limited.value.code = 1 ∧ limited.value.diagnostic ≠ [] ∧
      ¬ ∃ tally, .batchClassified tally ∈ limited.events := by
  intro session limited
  have succeeds : (session.withRoom none).run.value.code = 0 := by decide +kernel
  have hlength : 11 < (session.withRoom none).run.value.output.length := by decide +kernel
  obtain ⟨houtput, hcode, hdiagnostic, htally⟩ := run_withRoom 11 succeeds
  refine ⟨succeeds, houtput.trans (by decide +kernel), ?_, hdiagnostic.mpr hlength, ?_⟩
  · rw [hcode, if_neg (Nat.not_le.mpr hlength)]
  · rw [htally]
    exact fun h => Nat.not_le.mpr hlength h.1

end Session

end PathFilter
