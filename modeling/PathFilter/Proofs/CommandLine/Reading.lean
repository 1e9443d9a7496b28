import PathFilter.CommandLine.Printer
import PathFilter.Proofs.CommandLine.Steps
import PathFilter.Proofs.Text.Utf8

/-!
Reading one use of an option. An argument that names an option reads back as that option, whichever
way it is spelled. A reader that awaits no value takes every item that it has room for, and is then
as if it had stored the value of the item, although it may still hold it back (`takeAll_item`).
-/

set_option autoImplicit false
set_option relaxedAutoImplicit false

namespace PathFilter.CommandLine

namespace CommandOption

private theorem read_longName (option : CommandOption) :
    Argument.read option.longName = .long (Utf8.encode option.long.toList) none := by
  cases option with
  | switch name => cases name <;> decide +kernel
  | verbose => decide +kernel
  | value option => cases option <;> decide +kernel

private theorem equalsSign_not_mem_long (option : CommandOption) :
    Argument.equalsSign ∉ Utf8.encode option.long.toList := by
  cases option with
  | switch name => cases name <;> decide +kernel
  | verbose => decide +kernel
  | value option => cases option <;> decide +kernel

private theorem ofLong?_long (option : CommandOption) :
    ofLong? option.long.toList = some option := by
  cases option with
  | switch name => cases name <;> decide +kernel
  | verbose => decide +kernel
  | value option => cases option <;> decide +kernel

private theorem ofLong?_decode (option : CommandOption) :
    (Utf8.decode? (Utf8.encode option.long.toList)).bind ofLong? = some option := by
  rw [Utf8.decode?_eq_some_iff.mpr rfl]
  exact ofLong?_long option

private theorem read_joined (option : CommandOption) (value : Bytes) :
    Argument.read (option.longName ++ Argument.equalsSign :: value) =
      .long (Utf8.encode option.long.toList) (some value) := by
  have hsplit := Text.splitFirst?_append option.equalsSign_not_mem_long value
  simp [longName, Argument.read, Argument.readLong, hsplit]

private theorem read_letter {option : CommandOption} {letter : Char}
    (h : option.short? = some letter) :
    Argument.read (Argument.hyphen :: Utf8.encode [letter]) = .cluster [letter] [] ∧
      ofShort? letter = some option := by
  cases option with
  | switch name => cases name <;> cases h <;> decide +kernel
  | verbose => cases h; decide +kernel
  | value option => cases option <;> cases h <;> decide +kernel

end CommandOption

def Invocation.take (invocation : Invocation) : Item → Invocation
  | .switch _ name => invocation.turnOn name
  | .verbose _ => invocation.raiseVerbosity
  | .apart _ option value | .joined option value => invocation.store value option

/-- An item does not repeat what may be given once only. -/
def Invocation.HasRoom (invocation : Invocation) : Item → Prop
  | .switch _ name => invocation.isOn name = false
  | .verbose _ => True
  | .apart _ option _ | .joined option _ => invocation.isTaken option = false

namespace Reader

variable {reader next : Reader} {invocation : Invocation}

private theorem awaited?_of_settled (settled : reader.settle = .ok invocation) :
    reader.awaited? = none := by
  unfold settle at settled
  unfold awaited?
  split at settled <;> simp_all

private theorem unclaimed_of_settled (settled : reader.settle = .ok invocation) :
    reader.awaited?.filter ValueOption.takesAnything = none := by
  rw [awaited?_of_settled settled, Option.filter_none]

private theorem takeLong_long (reader : Reader) (option : CommandOption) :
    reader.takeLong (Utf8.encode option.long.toList) none = reader.takeFlag option := by
  unfold takeLong
  rw [option.ofLong?_decode]
  cases option <;> rfl

private theorem takeLong_value (reader : Reader) (option : ValueOption) (value : Bytes) :
    reader.takeLong (Utf8.encode option.long.toList) (some value) =
      reader.takeAttached option value := by
  have hoption : (Utf8.decode? (Utf8.encode option.long.toList)).bind CommandOption.ofLong? =
      some (.value option) := (CommandOption.value option).ofLong?_decode
  unfold takeLong
  rw [hoption]

private theorem takeCluster_letter {option : CommandOption} {letter : Char}
    (h : CommandOption.ofShort? letter = some option) (htake : reader.takeFlag option = .ok next) :
    reader.takeCluster [] [letter] = .ok next := by
  rw [takeCluster, h]
  cases option with
  | value option => exact htake
  | switch name => simp [htake, takeCluster]
  | verbose => simp [htake, takeCluster]

private theorem step_spell (settled : reader.settle = .ok invocation) (option : CommandOption)
    (spelling : Spelling) (htake : reader.takeFlag option = .ok next) :
    Step reader (option.spell spelling) next := by
  have unclaimed := unclaimed_of_settled settled
  have hlong : Step reader option.longName next :=
    .long unclaimed option.read_longName (by rw [takeLong_long, htake])
  cases spelling with
  | long => exact hlong
  | letter =>
    unfold CommandOption.spell
    cases hshort : option.short? with
    | none => exact hlong
    | some letter =>
      obtain ⟨hread, hof⟩ := CommandOption.read_letter hshort
      exact .cluster unclaimed hread (takeCluster_letter hof htake)

private theorem store_of_free {option : ValueOption} (free : invocation.isTaken option = false)
    (value : Bytes) : store invocation option value = .ok (invocation.store value option) := by
  rw [store, free]
  rfl

private theorem takeFlag_switch (settled : reader.settle = .ok invocation) {name : Switch}
    (off : invocation.isOn name = false) :
    reader.takeFlag (.switch name) = .ok { invocation := invocation.turnOn name } := by
  refine bind_eq_ok.mpr ⟨invocation, settled, ?_⟩
  simp only [off]
  rfl

private theorem takeFlag_verbose (settled : reader.settle = .ok invocation) :
    reader.takeFlag .verbose = .ok { invocation := invocation.raiseVerbosity } :=
  bind_eq_ok.mpr ⟨invocation, settled, rfl⟩

private theorem takeFlag_value (settled : reader.settle = .ok invocation) (option : ValueOption) :
    reader.takeFlag (.value option) =
      .ok { invocation := invocation, held? := some ⟨option, none⟩ } :=
  bind_eq_ok.mpr ⟨invocation, settled, rfl⟩

private theorem takeAttached_of_free (settled : reader.settle = .ok invocation)
    {option : ValueOption} (free : invocation.isTaken option = false) (value : Bytes) :
    reader.takeAttached option value = .ok { invocation := invocation.store value option } := by
  refine bind_eq_ok.mpr ⟨invocation, settled, ?_⟩
  exact bind_eq_ok.mpr ⟨_, store_of_free free value, rfl⟩

private theorem step_awaited {option : ValueOption} (anything : option.takesAnything = true)
    (invocation : Invocation) (argument : Bytes) :
    Step { invocation := invocation, held? := some ⟨option, none⟩ } argument
      { invocation := invocation, held? := some ⟨option, some argument⟩ } := by
  apply Step.unread
  simp [awaited?, anything]

theorem takeAll_item (settled : reader.settle = .ok invocation) {item : Item}
    (plain : item.IsPlain) (room : invocation.HasRoom item) :
    ∃ next : Reader, next.settle = .ok (invocation.take item) ∧
      ∀ rest, takeAll reader (item.arguments ++ rest) = takeAll next rest := by
  cases item with
  | switch spelling name =>
    refine ⟨{ invocation := invocation.turnOn name }, rfl, ?_⟩
    exact (step_spell settled _ spelling (takeFlag_switch settled room)).takeAll_eq
  | verbose spelling =>
    refine ⟨{ invocation := invocation.raiseVerbosity }, rfl, ?_⟩
    exact (step_spell settled _ spelling (takeFlag_verbose settled)).takeAll_eq
  | apart spelling option value =>
    have hname := step_spell settled _ spelling (takeFlag_value settled option)
    have hvalue := step_awaited plain invocation value
    refine ⟨{ invocation := invocation, held? := some ⟨option, some value⟩ }, ?_, ?_⟩
    · exact store_of_free room value
    · intro rest
      exact (hname.takeAll_eq (value :: rest)).trans (hvalue.takeAll_eq rest)
  | joined option value =>
    have htake :=
      (takeLong_value reader option value).trans (takeAttached_of_free settled room value)
    have step : Step reader _ { invocation := invocation.store value option } :=
      .long (unclaimed_of_settled settled) (CommandOption.read_joined (.value option) value) htake
    exact ⟨{ invocation := invocation.store value option }, rfl, step.takeAll_eq⟩

theorem takeAll_terminator (settled : reader.settle = .ok invocation) (paths : List Bytes) :
    takeAll reader ([Argument.hyphen, Argument.hyphen] :: paths) =
      .ok (invocation.addPaths paths) := by
  have ends : reader.EndsOptions [Argument.hyphen, Argument.hyphen] :=
    ⟨unclaimed_of_settled settled, by decide +kernel⟩
  rw [ends.takeAll_eq]
  exact bind_eq_ok.mpr ⟨invocation, settled, rfl⟩

end Reader

end PathFilter.CommandLine
