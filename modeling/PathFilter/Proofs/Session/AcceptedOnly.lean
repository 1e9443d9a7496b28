import PathFilter.Proofs.Session.PathLists
import PathFilter.Proofs.Session.Runs

set_option autoImplicit false
set_option relaxedAutoImplicit false

namespace PathFilter

namespace Session

open CommandLine (Invocation)

variable {session : Session} {invocation : Invocation} {filter : Filter} {text : Text}

def withInput (session : Session) (input : Bytes) : Session := { session with input := input }

def keeps (filter : Filter) (path : Text) : Bool := (filter.classify path .none).value.accepted

private theorem Classifies.script_of_input (classifies : session.Classifies invocation)
    (fromInput : invocation.paths = [])
    (built : (invocation.buildFilter session.files).run.value = .ok filter)
    (input : session.input = Utf8.encode text) :
    session.script = .ok ((PathList.pathsOf text).flatMap (invocation.recordOf filter)) := by
  have hpaths : session.collectPaths invocation = .ok (PathList.pathsOf text) := by
    rw [collectPaths_of_text fun _ => input, if_pos fromInput]
  rw [classifies.script_eq, value_prepare, built, hpaths]
  rfl

private theorem Classifies.exists_of_script_ok (classifies : session.Classifies invocation)
    (fromInput : invocation.paths = []) {script : Text} (h : session.script = .ok script) :
    ∃ filter text, (invocation.buildFilter session.files).run.value = .ok filter ∧
      session.input = Utf8.encode text := by
  have hnoError : ¬ ∃ error, session.script = .error error := by simp [h]
  rw [classifies.exists_script_error_iff, ← Invocation.exists_buildFilter_error_iff] at hnoError
  obtain ⟨hbuilt, hinput⟩ := not_or.mp hnoError
  have htext : ∃ text, session.input = Utf8.encode text := by
    by_contra hnone
    exact hinput ⟨fromInput, not_exists.mp hnone⟩
  obtain ⟨text, htext⟩ := htext
  cases hvalue : (invocation.buildFilter session.files).run.value with
  | error error => exact absurd ⟨error, hvalue⟩ hbuilt
  | ok filter => exact ⟨filter, text, rfl, htext⟩

private theorem recordOf_of_only (only : invocation.acceptedOnly = true)
    (plain : invocation.json = false) (filter : Filter) (path : Text) :
    invocation.recordOf filter path = if keeps filter path then path ++ ['\n'] else [] := by
  have hprinted : isPrinted invocation (filter.classify path .none).value = keeps filter path := by
    simp [isPrinted, keeps, only]
  have hform : RecordForm.ofInvocation invocation = .bare := by
    simp [RecordForm.ofInvocation, plain, only]
  rw [Invocation.recordOf]
  cases hkeeps : keeps filter path with
  | true =>
    rw [recordFor_of_printed (hprinted.trans hkeeps), hform]
    rfl
  | false =>
    rw [recordFor_of_not_printed (hprinted.trans hkeeps)]
    rfl

private theorem flatMap_recordOf (only : invocation.acceptedOnly = true)
    (plain : invocation.json = false) (filter : Filter) (paths : List Text) :
    paths.flatMap (invocation.recordOf filter) =
      (paths.filter (keeps filter)).flatMap (· ++ ['\n']) := by
  induction paths with
  | nil => rfl
  | cons path rest ih =>
    rw [List.flatMap_cons, ih, List.filter_cons, recordOf_of_only only plain]
    split_ifs <;> rfl

/-- A run that prints the accepted paths only, each on its line, and that succeeds on its input
succeeds on its output and writes it again. The lines of the output are among the paths of the
input, in their order. -/
theorem run_acceptedOnly_again (classifies : session.Classifies invocation)
    (only : invocation.acceptedOnly = true) (plain : invocation.json = false)
    (fromInput : invocation.paths = []) (succeeds : session.run.value.code = 0) :
    let output := session.run.value.output
    (session.withInput output).run.value = ⟨0, output, []⟩ ∧
      ∃ text written lines, session.input = Utf8.encode text ∧ output = Utf8.encode written ∧
        Text.cut (· == '\n') written = lines ++ [[]] ∧ lines.Sublist (PathList.pathsOf text) := by
  intro output
  obtain ⟨script, hscript, fits⟩ := run_of_code_eq_zero succeeds
  obtain ⟨filter, text, built, input⟩ := classifies.exists_of_script_ok fromInput hscript
  let kept := (PathList.pathsOf text).filter (keeps filter)
  have hlistable : ∀ path ∈ kept, PathList.Listable path := fun path hpath =>
    PathList.listable_of_mem_pathsOf (List.mem_of_mem_filter hpath)
  have hwritten : script = kept.flatMap (· ++ ['\n']) := by
    rw [classifies.script_of_input fromInput built input, Except.ok.injEq,
      flatMap_recordOf only plain] at hscript
    exact hscript.symm
  have houtput : output = Utf8.encode script := congrArg Outcome.output (run_of_fits hscript fits)
  -- the same arguments and files build the same filter, which keeps what it has kept
  have hagain : (session.withInput output).script = .ok script := by
    have classifies' : (session.withInput output).Classifies invocation :=
      ⟨classifies.parse_eq, classifies.help_eq, classifies.version_eq⟩
    have hkept : kept.filter (keeps filter) = kept := by
      rw [List.filter_filter]
      simp only [Bool.and_self]
      rfl
    rw [classifies'.script_of_input fromInput built houtput, hwritten,
      PathList.pathsOf_flatMap hlistable, flatMap_recordOf only plain, hkept]
  refine ⟨?_, text, script, kept, input, houtput, ?_, List.filter_sublist⟩
  · rw [run_of_fits hagain fits, houtput]
  · rw [hwritten]
    exact Text.cut_flatMap fun path hpath => (hlistable path hpath).oneLine

/-- Three of four paths are kept, with a carriage return, a tab and a blank inside them, and the
output has room for these and no more. -/
theorem run_acceptedOnly_again_full :
    let session : Session :=
      { arguments := ["vcfilter", "--accepted-only", "--anywhere", "--exclude-from=x"].map
          fun word => Utf8.encode word.toList
        files := .ofReadings [(Utf8.encode "x".toList, .ok (Utf8.encode "*.o\r# objects\r".toList))]
        input := Utf8.encode "a\rb\r\r\n\n\r\nlib/.o\nlib/x.o\r\n é\tc".toList
        room? := some 17 }
    let output := Utf8.encode "a\rb\nlib/.o\n é\tc\n".toList
    session.run.value.code = 0 ∧ session.run.value.output = output ∧
      (session.withInput output).run.value = ⟨0, output, []⟩ := by
  intro session output
  let invocation : Invocation :=
    { excludeFiles := [Utf8.encode "x".toList], options := { anywhere := true },
      acceptedOnly := true }
  have classifies : session.Classifies invocation := ⟨by decide +kernel, rfl, rfl⟩
  have succeeds : session.run.value.code = 0 := by decide +kernel
  have houtput : session.run.value.output = output := by decide +kernel
  have hagain := (run_acceptedOnly_again classifies rfl rfl rfl succeeds).1
  rw [houtput] at hagain
  exact ⟨succeeds, houtput, hagain⟩

end Session

end PathFilter
