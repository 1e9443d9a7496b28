import Mathlib.Data.List.Induction
import Mathlib.Data.List.Nodup
import PathFilter.Proofs.CommandLine.Reading

/-!
What a list of items asks for. `gather` reads it off the items of each option, and the reader comes
to the same by taking the items one after the other, if none of them repeats what may be given once
only (`takeAll_items`). Items that spell an intent gather to the invocation of the intent.
-/

set_option autoImplicit false
set_option relaxedAutoImplicit false

namespace PathFilter.CommandLine

def hasSwitch (items : List Item) (name : Switch) : Bool :=
  (items.filterMap Item.switch?).contains name

def gather (items : List Item) : Invocation where
  help := hasSwitch items .help
  version := hasSwitch items .version
  verbosity := items.countP Item.isVerbose
  includes := (valuesOf items .includePattern).map Utf8.decodeLossy
  excludes := (valuesOf items .excludePattern).map Utf8.decodeLossy
  ignores := (valuesOf items .ignorePattern).map Utf8.decodeLossy
  includeFiles := valuesOf items .includeFile
  excludeFiles := valuesOf items .excludeFile
  ignoreFiles := valuesOf items .ignoreFile
  settings := (valuesOf items .settingsFile).head?
  repository := (valuesOf items .repository).head?.map Utf8.decodeLossy
  options := {
    anywhere := hasSwitch items .anywhere
    belowFolders := hasSwitch items .recursive
    trailingSeparator := hasSwitch items .trailingSlash
    repoRoot := hasSwitch items .repoRoot }
  disabled := {
    includes := hasSwitch items .noIncludes
    excludes := hasSwitch items .noExcludes
    ignores := hasSwitch items .noIgnores }
  acceptedOnly := hasSwitch items .acceptedOnly
  json := hasSwitch items .json

/-- Items that keep the rules for how often an option is used. -/
structure Orderly (items : List Item) : Prop where
  plain : ∀ item ∈ items, item.IsPlain
  switches : (items.filterMap Item.switch?).Nodup
  verbosity : items.countP Item.isVerbose ≤ 255
  settings : (valuesOf items .settingsFile).length ≤ 1
  repository : (valuesOf items .repository).length ≤ 1

theorem valuesOf_append (items others : List Item) (option : ValueOption) :
    valuesOf (items ++ others) option = valuesOf items option ++ valuesOf others option := by
  simp [valuesOf]

private theorem hasSwitch_append (items others : List Item) (name : Switch) :
    hasSwitch (items ++ others) name = (hasSwitch items name || hasSwitch others name) := by
  simp [hasSwitch]

private theorem hasSwitch_singleton (item : Item) (name : Switch) :
    hasSwitch [item] name = decide (item.switch? = some name) := by
  cases item <;> simp [hasSwitch, Item.switch?, eq_comm]

private theorem valuesOf_singleton (item : Item) (option : ValueOption) :
    valuesOf [item] option =
      match item.value? with
      | some (used, value) => if used = option then [value] else []
      | none => [] := by
  cases item with
  | switch _ _ | verbose _ => rfl
  | apart _ used value | joined used value =>
    by_cases hused : used = option <;> simp [valuesOf, Item.value?, hused]

private theorem isOn_gather (items : List Item) (name : Switch) :
    (gather items).isOn name = hasSwitch items name := by
  cases name <;> rfl

theorem Orderly.of_append {items others : List Item} (orderly : Orderly (items ++ others)) :
    Orderly items where
  plain := fun item hitem => orderly.plain item (List.mem_append_left others hitem)
  switches := by
    have h := orderly.switches
    rw [List.filterMap_append] at h
    exact h.of_append_left
  verbosity := by
    have h := orderly.verbosity
    rw [List.countP_append] at h
    omega
  settings := by
    have h := orderly.settings
    rw [valuesOf_append, List.length_append] at h
    omega
  repository := by
    have h := orderly.repository
    rw [valuesOf_append, List.length_append] at h
    omega

private theorem valuesOf_eq_nil {items : List Item} {item : Item} {option : ValueOption}
    {value : Bytes} (hvalue : item.value? = some (option, value))
    (once : (valuesOf (items ++ [item]) option).length ≤ 1) : valuesOf items option = [] := by
  rw [valuesOf_append, valuesOf_singleton, hvalue, List.length_append] at once
  apply List.eq_nil_of_length_eq_zero
  simpa using once

private theorem Orderly.isTaken_gather {items : List Item} {item : Item} {option : ValueOption}
    {value : Bytes} (orderly : Orderly (items ++ [item]))
    (hvalue : item.value? = some (option, value)) : (gather items).isTaken option = false := by
  cases option with
  | settingsFile => simp [Invocation.isTaken, gather, valuesOf_eq_nil hvalue orderly.settings]
  | repository => simp [Invocation.isTaken, gather, valuesOf_eq_nil hvalue orderly.repository]
  | _ => rfl

private theorem Orderly.hasRoom {items : List Item} {item : Item}
    (orderly : Orderly (items ++ [item])) :
    (gather items).HasRoom item := by
  cases item with
  | switch spelling name =>
    have nodup := orderly.switches
    rw [List.filterMap_append] at nodup
    have hnew : name ∉ items.filterMap Item.switch? := by
      intro hold
      exact (List.disjoint_of_nodup_append nodup) hold (by simp [Item.switch?])
    show (gather items).isOn name = false
    rw [isOn_gather]
    simpa [hasSwitch] using hnew
  | verbose spelling => trivial
  | apart spelling option value => exact orderly.isTaken_gather rfl
  | joined option value => exact orderly.isTaken_gather rfl

private theorem gather_concat_switch (items : List Item) (spelling : Spelling) (name : Switch) :
    gather (items ++ [.switch spelling name]) = (gather items).turnOn name := by
  cases name <;>
    simp [gather, hasSwitch_append, hasSwitch_singleton, valuesOf_append, valuesOf_singleton,
      Invocation.turnOn, Item.switch?, Item.value?, Item.isVerbose]

private theorem gather_concat_verbose {items : List Item} {spelling : Spelling}
    (few : (items ++ [Item.verbose spelling]).countP Item.isVerbose ≤ 255) :
    gather (items ++ [.verbose spelling]) = (gather items).raiseVerbosity := by
  have hcount : (items ++ [Item.verbose spelling]).countP Item.isVerbose =
      items.countP Item.isVerbose + 1 := by
    simp [Item.isVerbose]
  have hmin : min 255 (items.countP Item.isVerbose + 1) = items.countP Item.isVerbose + 1 := by
    omega
  simp [gather, hasSwitch_append, hasSwitch_singleton, valuesOf_append, valuesOf_singleton,
    Invocation.raiseVerbosity, Item.switch?, Item.value?, Item.isVerbose, hmin]

private theorem gather_concat_value {items : List Item} {item : Item} {option : ValueOption}
    {value : Bytes} (hvalue : item.value? = some (option, value))
    (free : (gather items).isTaken option = false) :
    gather (items ++ [item]) = (gather items).store value option := by
  have hswitch : item.switch? = none := by
    cases item <;> simp_all [Item.value?, Item.switch?]
  have hverbose : item.isVerbose = false := by
    cases item <;> simp_all [Item.value?, Item.isVerbose]
  cases option <;>
    simp_all [gather, hasSwitch_append, hasSwitch_singleton, valuesOf_append, valuesOf_singleton,
      Invocation.store, Invocation.isTaken]

private theorem gather_concat {items : List Item} {item : Item}
    (orderly : Orderly (items ++ [item])) :
    gather (items ++ [item]) = (gather items).take item := by
  cases item with
  | switch spelling name => exact gather_concat_switch items spelling name
  | verbose spelling => exact gather_concat_verbose orderly.verbosity
  | apart spelling option value => exact gather_concat_value rfl (orderly.isTaken_gather rfl)
  | joined option value => exact gather_concat_value rfl (orderly.isTaken_gather rfl)

/-- The reader takes orderly items for what they ask for. -/
theorem takeAll_items {items : List Item} (orderly : Orderly items) :
    ∃ reader : Reader, reader.settle = .ok (gather items) ∧
      ∀ rest, Reader.takeAll {} (items.flatMap Item.arguments ++ rest) =
        Reader.takeAll reader rest := by
  -- The reader may still hold the last value back, so the invariant is about what it settles.
  induction items using List.reverseRecOn with
  | nil => exact ⟨{}, rfl, fun _ => rfl⟩
  | append_singleton items item ih =>
    obtain ⟨reader, settled, hrun⟩ := ih orderly.of_append
    have plain : item.IsPlain := orderly.plain item (by simp)
    obtain ⟨next, hnext, htake⟩ := Reader.takeAll_item settled plain orderly.hasRoom
    refine ⟨next, ?_, ?_⟩
    · rw [hnext, gather_concat orderly]
    · intro rest
      rw [List.flatMap_append, List.append_assoc, hrun, List.flatMap_singleton, htake]

namespace Intent

variable (intent : Intent)

theorem options_eq : intent.options =
    { anywhere := intent.switches .anywhere
      belowFolders := intent.switches .recursive
      trailingSeparator := intent.switches .trailingSlash
      repoRoot := intent.switches .repoRoot } := by
  simp only [options, Switch.all, Switch.options, List.foldl_cons, List.foldl_nil,
    MatchOptions.union_none, ite_self]
  cases intent.switches .anywhere <;> cases intent.switches .recursive <;>
    cases intent.switches .trailingSlash <;> cases intent.switches .repoRoot <;> rfl

theorem disabled_eq : intent.disabled =
    { includes := intent.switches .noIncludes
      excludes := intent.switches .noExcludes
      ignores := intent.switches .noIgnores } := by
  simp only [disabled, Switch.all, Switch.disabled, List.foldl_cons, List.foldl_nil,
    DisabledRoles.union_none, ite_self]
  cases intent.switches .noIncludes <;> cases intent.switches .noExcludes <;>
    cases intent.switches .noIgnores <;> rfl

end Intent

namespace Intent.SpelledBy

variable {intent : Intent} {items : List Item}

private theorem hasSwitch_eq (spelled : intent.SpelledBy items) (name : Switch) :
    hasSwitch items name = intent.switches name := by
  have hcount := spelled.switches name
  rw [Bool.eq_iff_iff, hasSwitch, List.contains_iff_mem, ← List.count_pos_iff, hcount]
  cases intent.switches name <;> decide

theorem orderly (spelled : intent.SpelledBy items) : Orderly items where
  plain := spelled.plain
  switches := by
    rw [List.nodup_iff_count_le_one]
    intro name
    rw [spelled.switches name]
    exact Bool.toNat_le _
  verbosity := by
    rw [spelled.verbosity]
    omega
  settings := by
    rw [spelled.values]
    cases hcompanions : intent.companions <;> simp [Intent.values, hcompanions]
  repository := by
    rw [spelled.values]
    cases hcompanions : intent.companions <;> simp [Intent.values, hcompanions]

theorem gather_eq (spelled : intent.SpelledBy items) :
    (gather items).addPaths (intent.paths.map Utf8.encode) = intent.invocation := by
  simp [gather, Invocation.addPaths, Intent.invocation, spelled.hasSwitch_eq, spelled.values,
    spelled.verbosity, Intent.values, Intent.options_eq, Intent.disabled_eq, Function.comp_def,
    Utf8.decodeLossy_encode]

end Intent.SpelledBy

end PathFilter.CommandLine
