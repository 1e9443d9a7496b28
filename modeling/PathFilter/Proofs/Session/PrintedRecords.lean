import PathFilter.Proofs.Session.Runs

set_option autoImplicit false
set_option relaxedAutoImplicit false

namespace PathFilter.Session

open CommandLine (Invocation)

variable {session : Session} {invocation : Invocation}

def printed (invocation : Invocation) (filter : Filter) (paths : List Text) : List Record :=
  (paths.map fun path => ⟨path, (filter.classify path .none).value⟩).filter fun record =>
    isPrinted invocation record.verdict

private theorem printed_cons (invocation : Invocation) (filter : Filter) (path : Text)
    (paths : List Text) :
    printed invocation filter (path :: paths) =
      (if isPrinted invocation (filter.classify path .none).value then
        [⟨path, (filter.classify path .none).value⟩]
      else []) ++ printed invocation filter paths := by
  rw [printed, List.map_cons, List.filter_cons]
  split_ifs <;> rfl

private theorem flatMap_recordOf_eq (invocation : Invocation) (filter : Filter)
    (paths : List Text) :
    paths.flatMap (invocation.recordOf filter) =
      (printed invocation filter paths).flatMap (·.line (.ofInvocation invocation)) := by
  induction paths with
  | nil => rfl
  | cons path paths ih =>
    rw [List.flatMap_cons, printed_cons, List.flatMap_append, ih, Invocation.recordOf]
    congr 1
    cases hprinted : isPrinted invocation (filter.classify path .none).value with
    | true => rw [recordFor_of_printed hprinted, if_pos rfl, List.flatMap_singleton]
    | false => rw [recordFor_of_not_printed hprinted]; rfl

theorem Classifies.exists_of_code_eq_zero (classifies : session.Classifies invocation)
    (succeeds : session.run.value.code = 0) :
    ∃ filter paths, (invocation.buildFilter session.files).run.value = .ok filter ∧
      session.collectPaths invocation = .ok paths ∧
      session.run.value.output = Utf8.encode
        ((printed invocation filter paths).flatMap (·.line (.ofInvocation invocation))) := by
  obtain ⟨script, hscript, fits⟩ := run_of_code_eq_zero succeeds
  have hprepared := hscript
  rw [classifies.script_eq, value_prepare] at hprepared
  cases hbuilt : (invocation.buildFilter session.files).run.value with
  | error error => simp [hbuilt, Except.bind, Except.map] at hprepared
  | ok filter =>
    cases hcollected : session.collectPaths invocation with
    | error error => simp [hbuilt, hcollected, Except.bind, Except.map] at hprepared
    | ok paths =>
      rw [hbuilt, hcollected] at hprepared
      have hpaths : paths.flatMap (invocation.recordOf filter) = script := Except.ok.inj hprepared
      refine ⟨filter, paths, rfl, rfl, ?_⟩
      rw [run_of_fits hscript fits, ← flatMap_recordOf_eq, hpaths]

end PathFilter.Session
