import Mathlib.Data.List.DropRight
import PathFilter.Proofs.Session.PrintedRecords

set_option autoImplicit false
set_option relaxedAutoImplicit false

namespace PathFilter

namespace Event

private theorem message_eq_summary_iff {event : Event} :
    event.message = "classify_summary" ↔ event.IsTally := by
  cases event <;> simp [message, IsTally]

end Event

namespace Tally

def Change.verdict? : Change → Option Verdict
  | .record verdict => some verdict
  | .reset => none

/-- The verdicts recorded after the last reset, in the order of the changes. -/
def recorded (changes : List Change) : List Verdict :=
  (changes.rtakeWhile (· ≠ .reset)).filterMap Change.verdict?

structure Counts (tally : Tally) (verdicts : List Verdict) : Prop where
  count_eq : ∀ verdict, tally.count verdict = verdicts.count verdict
  total_eq : tally.total = verdicts.length
  accepted_eq : tally.accepted = verdicts.countP Verdict.accepted

private theorem counts_empty : empty.Counts [] := by
  refine ⟨fun verdict => ?_, rfl, rfl⟩
  cases verdict <;> rfl

theorem Counts.record {tally : Tally} {verdicts : List Verdict} (counts : tally.Counts verdicts)
    (verdict : Verdict) : (tally.record verdict).Counts (verdicts ++ [verdict]) := by
  constructor
  · intro other
    rw [count_record, counts.count_eq, List.count_append, List.count_singleton]
    simp only [beq_iff_eq]
  · rw [total_record, counts.total_eq, List.length_append, List.length_singleton]
  · rw [accepted_record, counts.accepted_eq, List.countP_append, List.countP_singleton]

private theorem recorded_concat_record (changes : List Change) (verdict : Verdict) :
    recorded (changes ++ [.record verdict]) = recorded changes ++ [verdict] := by
  rw [recorded, List.rtakeWhile_concat_pos _ _ _ (by simp), List.filterMap_append]
  rfl

private theorem recorded_concat_reset (changes : List Change) :
    recorded (changes ++ [.reset]) = [] := by
  rw [recorded, List.rtakeWhile_concat_neg _ _ _ (by simp)]
  rfl

theorem Counts.apply {tally : Tally} {changes : List Change}
    (counts : tally.Counts (recorded changes)) (change : Change) :
    (tally.apply change).Counts (recorded (changes ++ [change])) := by
  cases change with
  | record verdict =>
    rw [recorded_concat_record]
    exact counts.record verdict
  | reset =>
    rw [recorded_concat_reset]
    exact counts_empty

/-- After any changes a tally counts what was recorded since the last reset. -/
theorem counts_foldl_apply (changes : List Change) :
    (changes.foldl apply empty).Counts (recorded changes) := by
  induction changes using List.reverseRecOn with
  | nil => exact counts_empty
  | append_singleton changes change ih =>
    rw [List.foldl_concat]
    exact ih.apply change

end Tally

namespace Session

open CommandLine (Invocation)

variable {session : Session} {invocation : Invocation} {filter : Filter} {paths : List Text}

def numberOf (filter : Filter) (paths : List Text) (verdict : Verdict) : Nat :=
  paths.countP fun path => (filter.classify path .none).value = verdict

private theorem counts_tallyOf {tally : Tally} {verdicts : List Verdict}
    (counts : tally.Counts verdicts) (filter : Filter) (paths : List Text) :
    (tallyOf filter tally paths).Counts
      (verdicts ++ paths.map fun path => (filter.classify path .none).value) := by
  induction paths generalizing tally verdicts with
  | nil => simpa [tallyOf] using counts
  | cons path paths ih =>
    have hrest := ih (counts.record (filter.classify path .none).value)
    rw [List.append_assoc, List.singleton_append] at hrest
    exact hrest

private theorem events_classifyPaths {sink : Sink} {tally result : Tally}
    (ended : (classifyPaths invocation filter sink tally paths).value.2 = .ok result) :
    (classifyPaths invocation filter sink tally paths).events =
      paths.flatMap fun path => (filter.classify path .none).events := by
  induction paths generalizing sink tally with
  | nil => rfl
  | cons path paths ih =>
    rw [classifyPaths, Logged.value_bind] at ended
    rw [classifyPaths, Logged.events_bind, List.flatMap_cons]
    congr 1
    -- a record that is refused would have ended the batch
    by_cases hprinted : isPrinted invocation (filter.classify path .none).value
    · rw [if_pos hprinted] at ended ⊢
      rcases hwrite : writeRecord sink ⟨path, (filter.classify path .none).value⟩
        (.ofInvocation invocation)
        with ⟨after, error | value⟩
      · rw [hwrite] at ended
        exact absurd ended (by simp)
      · rw [hwrite] at ended
        exact ih ended
    · rw [if_neg hprinted] at ended ⊢
      exact ih ended

/-- A batch that comes to its end reports the tally of all its paths behind everything else. -/
theorem events_classifyBatch {sink : Sink}
    (prepared : (session.prepare invocation).run.value = .ok (filter, paths))
    (ended : (session.classifyBatch invocation sink).value.2 = .ok ()) :
    (session.classifyBatch invocation sink).events =
      (session.prepare invocation).run.events ++
        (paths.flatMap fun path => (filter.classify path .none).events) ++
          [.batchClassified (tallyOf filter .empty paths)] := by
  have hprints := prints_classifyPaths invocation filter sink .empty paths
  rw [classifyBatch, Logged.value_bind, prepared] at ended
  rw [classifyBatch, Logged.events_bind, prepared]
  simp only [Logged.value_bind, Logged.events_bind] at ended ⊢
  rcases hvalue : (classifyPaths invocation filter sink .empty paths).value with
    ⟨after, error | tally⟩
  · rw [hvalue] at ended
    exact absurd ended (by simp)
  · rw [hvalue] at hprints
    rw [hprints.value_eq, events_classifyPaths (congrArg Prod.snd hvalue), ← List.append_assoc]
    rfl

private theorem Classifies.events_eq (classifies : session.Classifies invocation)
    (succeeds : session.run.value.code = 0)
    (built : (invocation.buildFilter session.files).run.value = .ok filter)
    (collected : session.collectPaths invocation = .ok paths) :
    session.run.events = (session.prepare invocation).run.events ++
      (paths.flatMap fun path => (filter.classify path .none).events) ++
        [.batchClassified (tallyOf filter .empty paths)] := by
  have hprepared : (session.prepare invocation).run.value = .ok (filter, paths) := by
    rw [value_prepare, built, collected]
    rfl
  rw [run_eq, Logged.value_bind, exit_code_eq_zero_iff, classifies.act_eq] at succeeds
  rw [run_eq, Logged.events_bind, classifies.act_eq, events_exit_of_ok succeeds, List.append_nil,
    events_classifyBatch hprepared succeeds]

private theorem not_isTally_before {event : Event}
    (h : event ∈ (session.prepare invocation).run.events ++
      paths.flatMap fun path => (filter.classify path .none).events) : ¬ event.IsTally := by
  have hread := (session.silent_prepare invocation).mono fun _ => Event.IsTally.isOnPaths
  rcases List.mem_append.mp h with h | h
  · exact hread.not_kind event h
  · obtain ⟨path, -, hpath⟩ := List.mem_flatMap.mp h
    exact (filter.silent_classify path .none).not_kind event hpath

private theorem length_printed_of_only (only : invocation.acceptedOnly = true) (filter : Filter)
    (paths : List Text) :
    (printed invocation filter paths).length =
      (paths.map fun path => (filter.classify path .none).value).countP Verdict.accepted := by
  rw [printed, ← List.countP_eq_length_filter, List.countP_map, List.countP_map]
  refine List.countP_congr fun path _ => ?_
  simp [isPrinted, only]

/-- After any changes a tally counts the verdicts that were recorded since its last reset. A run
that classifies paths and exits with 0 reports one tally, behind the classifications of its paths.
It counts the paths by their verdicts, whether they are printed or not, and where only accepted
paths are printed there are as many records as included and implied paths. -/
theorem run_tally_counts :
    (∀ changes : List Tally.Change,
      let tally := changes.foldl Tally.apply .empty
      let recorded := Tally.recorded changes
      (∀ verdict, tally.count verdict = recorded.count verdict) ∧ tally.total = recorded.length ∧
        tally.accepted = recorded.countP fun verdict => verdict = .included ∨ verdict = .implied) ∧
      ∀ (session : Session) (invocation : Invocation), session.Classifies invocation →
        session.run.value.code = 0 →
        ∃ filter paths tally,
          let before := (session.prepare invocation).run.events ++
            paths.flatMap fun path => (filter.classify path .none).events
          (invocation.buildFilter session.files).run.value = .ok filter ∧
          session.collectPaths invocation = .ok paths ∧
          session.run.events = before ++ [.batchClassified tally] ∧
          (∀ event ∈ before, event.message ≠ "classify_summary") ∧
          (Event.batchClassified tally).message = "classify_summary" ∧
          (Event.batchClassified tally).fields =
            [("total", .count paths.length),
              ("included", .count (numberOf filter paths .included)),
              ("excluded", .count (numberOf filter paths .excluded)),
              ("ignored", .count (numberOf filter paths .ignored)),
              ("implied", .count (numberOf filter paths .implied)),
              ("maybe", .count (numberOf filter paths .maybe))] ∧
          session.run.value.output = Utf8.encode
            ((printed invocation filter paths).flatMap (·.line (.ofInvocation invocation))) ∧
          (invocation.acceptedOnly = true → (printed invocation filter paths).length =
            numberOf filter paths .included + numberOf filter paths .implied) := by
  constructor
  · intro changes tally recorded
    obtain ⟨hcount, htotal, haccepted⟩ := Tally.counts_foldl_apply changes
    refine ⟨hcount, htotal, haccepted.trans ?_⟩
    refine List.countP_congr fun verdict _ => ?_
    rw [Verdict.accepted_eq_true_iff, decide_eq_true_iff]
  · intro session invocation classifies succeeds
    obtain ⟨filter, paths, hbuilt, hcollected, houtput⟩ :=
      classifies.exists_of_code_eq_zero succeeds
    have hevents := classifies.events_eq succeeds hbuilt hcollected
    obtain ⟨hcount, htotal, haccepted⟩ := counts_tallyOf Tally.counts_empty filter paths
    rw [List.nil_append] at hcount htotal haccepted
    have hnumber : ∀ verdict,
        (tallyOf filter .empty paths).count verdict = numberOf filter paths verdict := by
      intro verdict
      rw [hcount, List.count_eq_countP, List.countP_map]
      rfl
    refine ⟨filter, paths, tallyOf filter .empty paths, hbuilt, hcollected, hevents,
      fun event hevent hsummary =>
        not_isTally_before hevent (Event.message_eq_summary_iff.mp hsummary), rfl,
      ?_, houtput, fun only => ?_⟩
    · rw [List.length_map] at htotal
      simp only [← hnumber, ← htotal]
      rfl
    · rw [length_printed_of_only only, ← haccepted, ← hnumber, ← hnumber]
      rfl

theorem run_tally_counts_suppressed :
    let session : Session :=
      { arguments :=
          ["vcfilter", "--accepted-only", "--include=*.c", "--exclude=gen_*", "--ignore=*.o",
            "a.c", "gen_a.c", "a.o", "README", "b.c"].map fun word => Utf8.encode word.toList
        files := .ofReadings [] }
    session.run.value.output = Utf8.encode "a.c\nb.c\n".toList ∧
      ∃ before tally, session.run.events = before ++ [.batchClassified tally] ∧
        (∀ event ∈ before, event.message ≠ "classify_summary") ∧
        (Event.batchClassified tally).fields =
          [("total", .count 5), ("included", .count 2), ("excluded", .count 1),
            ("ignored", .count 1), ("implied", .count 0), ("maybe", .count 1)] := by
  intro session
  let invocation : Invocation :=
    { includes := ["*.c".toList], excludes := ["gen_*".toList], ignores := ["*.o".toList]
      acceptedOnly := true
      paths := ["a.c".toList, "gen_a.c".toList, "a.o".toList, "README".toList, "b.c".toList] }
  have classifies : session.Classifies invocation := ⟨by decide +kernel, rfl, rfl⟩
  have succeeds : session.run.value.code = 0 := by decide +kernel
  have built : (invocation.buildFilter session.files).run.value =
      .ok (invocation.filterFor session.files) := rfl
  obtain ⟨-, hruns⟩ := run_tally_counts
  obtain ⟨filter, paths, tally, hbuilt, hcollected, hevents, hbefore, -, hfields, houtput, -⟩ :=
    hruns session invocation classifies succeeds
  obtain rfl : invocation.filterFor session.files = filter :=
    Except.ok.inj (built.symm.trans hbuilt)
  obtain rfl : invocation.paths = paths := Except.ok.inj hcollected
  exact ⟨houtput.trans (by decide +kernel), _, tally, hevents, hbefore,
    hfields.trans (by decide +kernel)⟩

end Session

end PathFilter
