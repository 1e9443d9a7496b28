import PathFilter.Proofs.Session.Runs
import PathFilter.Proofs.Text.Trim

/-!
What a run that fails says. The diagnostic is the wording of the error behind the name of the
program. The lead `error: ` is dropped, which is how every refusal of the arguments begins. No other
wording begins so, with one exception: a wrong line of a settings file is told with the name of the
file in front, and the file may be called `error`, or something that begins with the lead itself.
-/

set_option autoImplicit false
set_option relaxedAutoImplicit false

namespace PathFilter

def RunError.HasLead : RunError → Prop
  | .arguments _ => True
  | .settings (.malformed (some file) _ _) =>
    file.text = "error".toList ∨ "error: ".toList <+: file.text
  | _ => False

private theorem CommandLine.ArgumentError.exists_message_eq (error : ArgumentError) :
    ∃ c wording, error.message = "error: ".toList ++ c :: wording ∧ Text.isBlank c = false := by
  cases error with
  | unknown argument => exact ⟨'u', _, rfl, by decide⟩
  | missingValue option => exact ⟨'a', _, rfl, by decide⟩
  | unneededValue option value => exact ⟨'u', _, rfl, by decide⟩
  | repeated option => exact ⟨'t', _, rfl, by decide⟩
  | missing option => exact ⟨'t', _, rfl, by decide⟩

private theorem SettingsError.exists_describe_eq (file : FileName) (line : Nat)
    (fault : LineFault) :
    ∃ told, describe (.malformed (some file) line fault) =
      file.text ++ ':' :: ' ' :: 'l' :: told := by
  have hdescribe : describe (.malformed (some file) line fault) =
      file.text ++ ": ".toList ++ "line ".toList ++ Text.decimal line ++ ": ".toList ++
        fault.message := rfl
  rw [hdescribe]
  exact ⟨"ine ".toList ++ Text.decimal line ++ ": ".toList ++ fault.message, by simp⟩

/-- A name with a colon and a space behind it begins with the lead if it is the lead's word or
begins with the lead itself. -/
theorem lead_prefix_iff {name told : Text} :
    "error: ".toList <+: name ++ ':' :: ' ' :: 'l' :: told ↔
      name = "error".toList ∨ "error: ".toList <+: name := by
  constructor
  · rintro ⟨rest, hrest⟩
    rcases List.append_eq_append_iff.mp hrest with ⟨more, hname, -⟩ | ⟨more, hlead, htold⟩
    · exact Or.inr ⟨more, hname.symm⟩
    · -- the name is a beginning of the lead, and the rest of the lead begins with a colon
      cases more with
      | nil => exact Or.inr ⟨[], by simpa using hlead⟩
      | cons c more =>
        obtain ⟨rfl, -⟩ := List.cons.inj htold
        have hsplit : name = "error".toList ∧ more = [' '] := by
          simpa [List.cons_eq_append_iff] using hlead
        exact Or.inl hsplit.1
  · rintro (rfl | ⟨more, rfl⟩)
    · exact ⟨'l' :: told, by simp⟩
    · exact ⟨more ++ ':' :: ' ' :: 'l' :: told, by simp⟩

namespace RunError

variable {error : RunError}

private theorem HasLead.exists_message_eq (lead : error.HasLead) :
    ∃ front c rest,
      error.message = "error: ".toList ++ front ++ c :: rest ∧ Text.isBlank c = false := by
  match error, lead with
  | .arguments error, _ =>
    obtain ⟨c, wording, hmessage, hc⟩ := error.exists_message_eq
    exact ⟨[], c, wording, hmessage, hc⟩
  | .settings (.malformed (some file) line fault), lead =>
    obtain ⟨told, hdescribe⟩ := SettingsError.exists_describe_eq file line fault
    rcases lead with hname | ⟨more, hmore⟩
    · exact ⟨[], 'l', told, hdescribe.trans (by simp [hname]), by decide⟩
    · exact ⟨more, ':', ' ' :: 'l' :: told, hdescribe.trans (by simp [← hmore]), by decide⟩

private theorem hasLead_iff : error.HasLead ↔ "error: ".toList <+: error.message := by
  constructor
  · intro lead
    obtain ⟨front, c, rest, hmessage, -⟩ := lead.exists_message_eq
    exact ⟨front ++ c :: rest, by rw [hmessage, List.append_assoc]⟩
  · intro begins
    -- the other wordings begin with another letter than the lead
    have hhead : error.message.head? = some 'e' := by
      obtain ⟨rest, hmessage⟩ := begins
      rw [← hmessage]
      rfl
    match error, begins, hhead with
    | .arguments _, _, _ => exact trivial
    | .settings (.malformed (some file) line fault), begins, _ =>
      obtain ⟨told, hdescribe⟩ := SettingsError.exists_describe_eq file line fault
      have hlead : "error: ".toList <+: file.text ++ ':' :: ' ' :: 'l' :: told := hdescribe ▸ begins
      exact lead_prefix_iff.mp hlead
    | .settings (.malformed none line fault), _, (hhead : some 'l' = some 'e') =>
      exact absurd hhead (by decide)
    | .settings (.unreadable file failure), _, (hhead : some 'f' = some 'e') =>
      exact absurd hhead (by decide)
    | .filter (.invalidArgument reason), _, (hhead : some 'i' = some 'e') =>
      exact absurd hhead (by decide)
    | .filter (.unreadable file failure), _, (hhead : some 'f' = some 'e') =>
      exact absurd hhead (by decide)
    | .filter (.ignoreSource repository cause), _, (hhead : some 'f' = some 'e') =>
      exact absurd hhead (by decide)
    | .input failure, _, (hhead : some 'f' = some 'e') => exact absurd hhead (by decide)
    | .output cause, _, (hhead : some 'f' = some 'e') => exact absurd hhead (by decide)
    | .record cause, _, (hhead : some 'f' = some 'e') => exact absurd hhead (by decide)

private theorem diagnostic_eq (error : RunError) :
    error.diagnostic = "vcfilter: ".toList ++
      (Text.after? "error: ".toList (Text.trimEnd error.message)).getD
        (Text.trimEnd error.message) ++
        ['\n'] := rfl

private theorem diagnostic_of_not_hasLead (plain : ¬ error.HasLead) :
    error.diagnostic = "vcfilter: ".toList ++ Text.trimEnd error.message ++ ['\n'] := by
  have hnone : Text.after? "error: ".toList (Text.trimEnd error.message) = none := by
    rw [Option.eq_none_iff_forall_ne_some]
    intro rest hrest
    have hkept : Text.trimEnd error.message <+: error.message := List.rdropWhile_prefix _ _
    have hlead : "error: ".toList <+: Text.trimEnd error.message :=
      ⟨rest, (Text.after?_eq_some_iff.mp hrest).symm⟩
    exact plain (hasLead_iff.mpr (hlead.trans hkept))
  rw [diagnostic_eq, hnone, Option.getD_none]

private theorem HasLead.exists_diagnostic_eq (lead : error.HasLead) :
    ∃ wording, Text.trimEnd error.message = "error: ".toList ++ wording ∧
      error.diagnostic = "vcfilter: ".toList ++ wording ++ ['\n'] := by
  obtain ⟨front, c, rest, hmessage, hc⟩ := lead.exists_message_eq
  have htrim :
      Text.trimEnd error.message = "error: ".toList ++ (front ++ c :: Text.trimEnd rest) := by
    rw [hmessage, Text.trimEnd_append_cons hc, List.append_assoc]
  refine ⟨front ++ c :: Text.trimEnd rest, htrim, ?_⟩
  rw [diagnostic_eq, htrim, Text.after?_append, Option.getD_some]

end RunError

namespace Session

variable {session : Session}

private theorem run_of_error {error : RunError}
    (h : (session.act { room? := session.room? }).value.2 = .error error) :
    session.run.value.code = 1 ∧ session.run.value.diagnostic = error.diagnostic := by
  rw [run_eq, Logged.value_bind]
  rcases hact : (session.act { room? := session.room? }).value with ⟨sink, result⟩
  rw [hact] at h
  obtain rfl : result = .error error := h
  exact ⟨rfl, rfl⟩

private theorem exists_error_of_failed (failed : session.run.value.code ≠ 0) :
    ∃ error, (session.act { room? := session.room? }).value.2 = .error error := by
  rw [run_eq, Logged.value_bind, ne_eq, exit_code_eq_zero_iff] at failed
  cases hact : (session.act { room? := session.room? }).value.2 with
  | error error => exact ⟨error, rfl⟩
  | ok value => exact absurd hact failed

/-- A run that fails tells the wording of its error behind the name of the program, without the
blanks at its end. A lead is lost: the `error: ` in front of a refusal of the arguments, and just as
well that in front of a wrong line of a settings file which is named `error` or whose name begins
with `error: `. -/
theorem run_diagnostic_of_failed (failed : session.run.value.code ≠ 0) :
    ∃ error, (session.act { room? := session.room? }).value.2 = .error error ∧
      (¬ error.HasLead →
        session.run.value.diagnostic =
          "vcfilter: ".toList ++ Text.trimEnd error.message ++ ['\n']) ∧
      (error.HasLead →
        ∃ wording, Text.trimEnd error.message = "error: ".toList ++ wording ∧
          session.run.value.diagnostic = "vcfilter: ".toList ++ wording ++ ['\n']) := by
  obtain ⟨error, herror⟩ := exists_error_of_failed failed
  rw [(run_of_error herror).2]
  exact ⟨error, herror, RunError.diagnostic_of_not_hasLead, RunError.HasLead.exists_diagnostic_eq⟩

/-- A pattern file that is not there. Its name has the lead, which does not begin the wording and is
kept. -/
theorem run_diagnostic_of_failed_patternFile :
    let session : Session :=
      { arguments := ["vcfilter", "--include-from", "error: x"].map fun word =>
          Utf8.encode word.toList
        files := .ofReadings [] }
    session.run.value.code ≠ 0 ∧
      session.run.value.diagnostic = "vcfilter: ".toList ++
        "failed to read pattern file 'error: x': No such file or directory (os error 2)".toList ++
          ['\n'] := by
  intro session
  have hact : (session.act { room? := session.room? }).value.2 =
      .error (.filter (.unreadable (Utf8.encode "error: x".toList) .notFound)) := rfl
  have failed : session.run.value.code ≠ 0 := by
    rw [(run_of_error hact).1]
    exact Nat.one_ne_zero
  obtain ⟨error, herror, plain, -⟩ := run_diagnostic_of_failed failed
  obtain rfl := Except.error.inj (hact.symm.trans herror)
  have noLead :
      ¬ (RunError.filter (.unreadable (Utf8.encode "error: x".toList) .notFound)).HasLead := id
  exact ⟨failed, (plain noLead).trans (by decide +kernel)⟩

/-- Not every wording is told as it is. A wrong line of a settings file named `error` is told
without the name of the file. -/
theorem not_forall_run_diagnostic_whole :
    ¬ ∀ (session : Session) (error : RunError),
      (session.act { room? := session.room? }).value.2 = .error error →
      (∀ refusal, error ≠ .arguments refusal) →
      session.run.value.diagnostic =
        "vcfilter: ".toList ++ Text.trimEnd error.message ++ ['\n'] := by
  intro whole
  let session : Session :=
    { arguments := ["vcfilter", "--settings", "error", "--repo", "r", "a"].map fun word =>
        Utf8.encode word.toList
      files := .ofReadings [(Utf8.encode "error".toList, .ok (Utf8.encode "[r\n".toList))] }
  have hact : (session.act { room? := session.room? }).value.2 =
      .error (.settings (.malformed (some (Utf8.encode "error".toList)) 1 .openHeader)) := rfl
  have told := (run_of_error hact).2.symm.trans (whole session _ hact nofun)
  exact absurd told (by decide +kernel)

end Session

end PathFilter
