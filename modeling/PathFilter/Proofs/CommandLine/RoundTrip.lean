import PathFilter.Proofs.CommandLine.Attainable
import PathFilter.Proofs.CommandLine.Items

set_option autoImplicit false
set_option relaxedAutoImplicit false

namespace PathFilter.CommandLine

theorem Intent.balanced (intent : Intent) : intent.invocation.Balanced := by
  cases hcompanions : intent.companions <;>
    simp [Invocation.Balanced, Intent.invocation, hcompanions]

private theorem Intent.SpelledBy.parse_write {intent : Intent} {items : List Item}
    (spelled : intent.SpelledBy items) (program : Bytes) :
    parse (write program items intent.paths) = .ok intent.invocation := by
  obtain ⟨reader, settled, hrun⟩ := takeAll_items spelled.orderly
  have hdrop : (write program items intent.paths).drop 1 = items.flatMap Item.arguments ++
      [Argument.hyphen, Argument.hyphen] :: intent.paths.map Utf8.encode := rfl
  have hread : Reader.takeAll {} ((write program items intent.paths).drop 1) =
      .ok intent.invocation := by
    rw [hdrop, hrun, Reader.takeAll_terminator settled, spelled.gather_eq]
  exact bind_eq_ok.mpr ⟨_, hread, checkCompanions_eq_ok_iff.mpr ⟨rfl, intent.balanced⟩⟩

/-- Nothing that can be read is lost in the intent behind it. -/
theorem Invocation.Attainable.invocation_intent {invocation : Invocation}
    (attainable : invocation.Attainable) (balanced : invocation.Balanced) :
    invocation.intent.invocation = invocation := by
  -- An intent has no room for a longer count, for options without a switch or for a lone companion.
  have hverbosity : (Fin.ofNat 256 invocation.verbosity : Nat) = invocation.verbosity :=
    Nat.mod_eq_of_lt (Nat.lt_succ_of_le attainable.verbosity)
  have hoptions : invocation.intent.options = invocation.options := by
    rw [Intent.options_eq, MatchOptions.mk.injEq]
    exact ⟨attainable.missingPattern.symm, attainable.missingPath.symm, rfl, rfl, rfl, rfl⟩
  have hdisabled : invocation.intent.disabled = invocation.disabled := by
    rw [Intent.disabled_eq]
    rfl
  have hcompanions : invocation.intent.companions.map Prod.fst = invocation.settings ∧
      invocation.intent.companions.map Prod.snd = invocation.repository := by
    unfold Invocation.Balanced at balanced
    unfold Invocation.intent
    cases hsettings : invocation.settings <;> cases hrepository : invocation.repository <;>
      simp_all
  unfold Intent.invocation
  rw [hoptions, hdisabled, hcompanions.1, hcompanions.2]
  unfold Invocation.intent
  dsimp only
  rw [hverbosity]
  rfl

private theorem valuesOf_map_joined (values : List Bytes) (used option : ValueOption) :
    valuesOf (values.map (.joined used)) option = if used = option then values else [] := by
  by_cases hused : used = option <;>
    simp [valuesOf, List.filterMap_map, Function.comp_def, Item.value?, hused]

private theorem Switch.count_filter (on : Switch → Bool) (name : Switch) :
    (Switch.all.filter on).count name = (on name).toNat := by
  cases hon : on name with
  | true =>
    rw [List.count_filter hon]
    cases name <;> decide
  | false =>
    apply List.count_eq_zero_of_not_mem
    simp [hon]

private theorem Intent.spelledBy_items (intent : Intent) : intent.SpelledBy intent.items where
  plain := by
    intro item hitem
    simp only [items, List.mem_append, List.mem_map, List.mem_replicate, List.mem_flatMap] at hitem
    rcases hitem with (⟨name, -, rfl⟩ | ⟨-, rfl⟩) | ⟨option, -, value, -, rfl⟩ <;> trivial
  values := by
    intro option
    have hswitches :
        valuesOf ((Switch.all.filter intent.switches).map (.switch .long)) option = [] := by
      simp [valuesOf, List.filterMap_map, Function.comp_def, Item.value?]
    have hverbose : valuesOf (List.replicate intent.verbosity (.verbose .letter)) option = [] := by
      simp [valuesOf, Item.value?]
    rw [items, valuesOf_append, valuesOf_append, hswitches, hverbose]
    cases option <;> simp [ValueOption.all, valuesOf_append, valuesOf_map_joined]
  switches := by
    intro name
    have hnames : intent.items.filterMap Item.switch? = Switch.all.filter intent.switches := by
      simp [items, List.filterMap_map, List.filterMap_flatMap, Function.comp_def, Item.switch?]
    rw [hnames, Switch.count_filter]
  verbosity := by
    simp [items, List.countP_flatMap, List.countP_replicate, Function.comp_def, Item.isVerbose]

/-- However an intent is spelled, with its options in any order, the command line is read as the
intent. Conversely every command line that is read asks for a settings file exactly if it asks for a
repository, and what it asks for can be spelled and is read back from every spelling. -/
theorem parse_write_spelled :
    (∀ {intent : Intent} {items : List Item} (program : Bytes), intent.SpelledBy items →
      parse (write program items intent.paths) = .ok intent.invocation) ∧
    ∀ {arguments : List Bytes} {invocation : Invocation}, parse arguments = .ok invocation →
      (invocation.settings.isSome = true ↔ invocation.repository.isSome = true) ∧
      invocation.intent.invocation = invocation ∧
      invocation.intent.SpelledBy invocation.intent.items ∧
      ∀ (program : Bytes) (items : List Item), invocation.intent.SpelledBy items →
        parse (write program items invocation.paths) = .ok invocation := by
  constructor
  · intro intent items program spelled
    exact spelled.parse_write program
  · intro arguments invocation h
    obtain ⟨attainable, balanced⟩ := attainable_of_parse h
    have hintent : invocation.intent.invocation = invocation :=
      attainable.invocation_intent balanced
    refine ⟨balanced, hintent, invocation.intent.spelledBy_items, ?_⟩
    intro program items spelled
    have hparse := spelled.parse_write program
    rwa [hintent] at hparse

/-- Patterns that look like options or like the end of options, next to all other kinds of items,
and a command line with a cluster and a name apart. -/
theorem parse_write_spelled_hyphens :
    let intent : Intent :=
      { includes := ["--".toList, [], "é".toList], excludes := ["-v".toList],
        ignores := ["--ignore".toList, "--json=1".toList],
        excludeFiles := [Utf8.encode "-f".toList, [0xFF]],
        companions := some (Utf8.encode "s=1".toList, "--".toList),
        switches := fun name => name = .help || name = .repoRoot || name = .noIgnores,
        verbosity := 2, paths := ["-i".toList, [], "--".toList] }
    let items : List Item :=
      [.verbose .letter, .apart .letter .includePattern (Utf8.encode "--".toList),
        .joined .repository (Utf8.encode "--".toList), .switch .letter .help,
        .apart .long .ignorePattern (Utf8.encode "--ignore".toList), .joined .includePattern [],
        .joined .excludeFile (Utf8.encode "-f".toList), .verbose .letter, .switch .long .noIgnores,
        .apart .letter .excludePattern (Utf8.encode "-v".toList), .switch .long .repoRoot,
        .apart .long .includePattern (Utf8.encode "é".toList), .joined .excludeFile [0xFF],
        .joined .settingsFile (Utf8.encode "s=1".toList),
        .joined .ignorePattern (Utf8.encode "--json=1".toList)]
    let arguments :=
      ["vcfilter", "-vx=--", "--settings", "s", "a", "--repo=r", "-i", "--", "--", "-v"].map
        fun argument => Utf8.encode argument.toList
    let invocation : Invocation :=
      { verbosity := 1, includes := ["--".toList], excludes := ["--".toList],
        settings := some (Utf8.encode "s".toList), repository := some "r".toList,
        paths := ["a".toList, "-v".toList] }
    (intent.SpelledBy items ∧ parse arguments = .ok invocation) ∧
      parse (write [] items intent.paths) = .ok intent.invocation ∧
      parse (write [] invocation.intent.items invocation.paths) = .ok invocation := by
  intro intent items arguments invocation
  have spelled : intent.SpelledBy items := by
    refine ⟨by decide +kernel, ?_, ?_, by decide +kernel⟩
    · intro option
      cases option <;> decide +kernel
    · intro name
      cases name <;> decide +kernel
  have hparse : parse arguments = .ok invocation := by rfl
  refine ⟨⟨spelled, hparse⟩, parse_write_spelled.1 [] spelled, ?_⟩
  obtain ⟨-, -, hspelled, hread⟩ := parse_write_spelled.2 hparse
  exact hread [] invocation.intent.items hspelled

end PathFilter.CommandLine
