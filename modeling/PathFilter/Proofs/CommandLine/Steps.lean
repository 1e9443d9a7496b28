import PathFilter.CommandLine.Parser

/-!
Reading one argument after the other. `Step` says all that an argument can do to a reader that goes
on: an option that takes anything takes the argument unread, and otherwise what the argument reads
as decides. What can be read at all is a path of steps to the end of the options
(`takeAll_cons_eq_ok_iff`).
-/

set_option autoImplicit false
set_option relaxedAutoImplicit false

namespace PathFilter.CommandLine

theorem bind_eq_ok {ε α β : Type} {first : Except ε α} {next : α → Except ε β} {result : β} :
    (first >>= next) = .ok result ↔ ∃ value, first = .ok value ∧ next value = .ok result := by
  cases first <;> simp [bind, Except.bind]

namespace Reader

/-- An argument leads from a reader to the next one. -/
inductive Step (reader : Reader) (argument : Bytes) : Reader → Prop
  /-- An option that takes anything awaits its value. -/
  | unread {option : ValueOption} :
      reader.awaited?.filter ValueOption.takesAnything = some option →
      Step reader argument (reader.hold option argument)
  | long {next : Reader} {name : Bytes} {value? : Option Bytes} :
      reader.awaited?.filter ValueOption.takesAnything = none →
      Argument.read argument = .long name value? → reader.takeLong name value? = .ok next →
      Step reader argument next
  | cluster {next : Reader} {letters : Text} {tail : Bytes} :
      reader.awaited?.filter ValueOption.takesAnything = none →
      Argument.read argument = .cluster letters tail → reader.takeCluster tail letters = .ok next →
      Step reader argument next
  | plain {next : Reader} :
      reader.awaited?.filter ValueOption.takesAnything = none →
      Argument.read argument = .plain → reader.takePlain argument = .ok next →
      Step reader argument next

structure EndsOptions (reader : Reader) (argument : Bytes) : Prop where
  unclaimed : reader.awaited?.filter ValueOption.takesAnything = none
  terminator : Argument.read argument = .terminator

variable {reader next : Reader} {argument : Bytes}

theorem EndsOptions.takeAll_eq (ends : reader.EndsOptions argument) (rest : List Bytes) :
    takeAll reader (argument :: rest) = reader.takePaths rest := by
  rw [takeAll, ends.unclaimed, ends.terminator]

theorem Step.takeAll_eq (step : Step reader argument next) (rest : List Bytes) :
    takeAll reader (argument :: rest) = takeAll next rest := by
  rw [takeAll]
  cases step with
  | unread claimed => rw [claimed]
  | long unclaimed hread htake => simp only [unclaimed, hread, htake]
  | cluster unclaimed hread htake => simp only [unclaimed, hread, htake]
  | plain unclaimed hread htake => simp only [unclaimed, hread, htake]

/-- An argument ends the options, or it is a step and the rest is read from there. -/
theorem takeAll_cons_eq_ok_iff {rest : List Bytes} {result : Invocation} :
    takeAll reader (argument :: rest) = .ok result ↔
      reader.EndsOptions argument ∧ reader.takePaths rest = .ok result ∨
        ∃ next, Step reader argument next ∧ takeAll next rest = .ok result := by
  constructor
  · intro h
    cases hclaim : reader.awaited?.filter ValueOption.takesAnything with
    | some option =>
      have step : Step reader argument (reader.hold option argument) := .unread hclaim
      exact Or.inr ⟨_, step, by rwa [step.takeAll_eq] at h⟩
    | none =>
      rw [takeAll, hclaim] at h
      cases hread : Argument.read argument with
      | terminator =>
        rw [hread] at h
        exact Or.inl ⟨⟨hclaim, hread⟩, h⟩
      | long name value? =>
        cases htake : reader.takeLong name value? <;> simp only [hread, htake] at h
        · cases h
        · exact Or.inr ⟨_, .long hclaim hread htake, h⟩
      | cluster letters tail =>
        cases htake : reader.takeCluster tail letters <;> simp only [hread, htake] at h
        · cases h
        · exact Or.inr ⟨_, .cluster hclaim hread htake, h⟩
      | plain =>
        cases htake : reader.takePlain argument <;> simp only [hread, htake] at h
        · cases h
        · exact Or.inr ⟨_, .plain hclaim hread htake, h⟩
  · rintro (⟨ends, h⟩ | ⟨next, step, h⟩)
    · rwa [ends.takeAll_eq]
    · rwa [step.takeAll_eq]

end Reader

end PathFilter.CommandLine
