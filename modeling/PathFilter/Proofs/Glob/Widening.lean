import PathFilter.Proofs.Glob.OpenEnds

set_option autoImplicit false
set_option relaxedAutoImplicit false

namespace PathFilter

namespace Glob

open Segment (Aligned)

private theorem seenPath_of_not_repoRoot (glob : Glob) (path : Text) {options : MatchOptions}
    (h : options.repoRoot = false) : glob.seenPath path options = path := by
  rw [seenPath, h]
  rfl

/-- What is taken of a path without its last separator is taken with it by segments that take
everything below. -/
theorem accepts_iff_of_belowFolders {pattern path : Text} {options : MatchOptions}
    (h : options.belowFolders = true) :
    (compile pattern).accepts path options = true ↔
      Aligned ((compile pattern).steps options)
        (components ((compile pattern).seenPath path options)) := by
  rw [accepts_eq_true_iff]
  constructor
  · rintro (aligned | ⟨-, shorter, hdrop, aligned⟩)
    · exact aligned
    · rw [steps_of_belowFolders h] at aligned ⊢
      have hne : openedFront options (compile (dropFinalSeparator pattern)).segments ≠ [] :=
        openedFront_ne_nil (segments_compile_ne_nil _)
      rw [aligned_openEnded_components_iff hne] at aligned ⊢
      obtain ⟨beginning, hbeginning, aligned⟩ := aligned
      exact ⟨beginning, (beginning_of_dropLastSeparator? hdrop).trans hbeginning, aligned⟩
  · exact Or.inl

end Glob

/-- A pattern that may begin anywhere matches a path if the pattern matches the path or what follows
one of its separators. -/
theorem patternAccepts_anywhere_iff {pattern path : Text} {options : MatchOptions}
    (wholePath : options.repoRoot = false) :
    patternAccepts pattern path (options.union { anywhere := true }) = true ↔
      ∃ ending, Ending path ending ∧ patternAccepts pattern ending options = true := by
  have hboth : (options.union { anywhere := true }).repoRoot = false := by
    simp [wholePath]
  have htrailing :
      (options.union { anywhere := true }).trailingSeparator = options.trailingSeparator := by
    simp
  have hsteps := Glob.steps_ne_nil pattern options
  simp only [patternAccepts, Glob.accepts_eq_true_iff, Glob.seenPath_of_not_repoRoot _ _ hboth,
    Glob.seenPath_of_not_repoRoot _ _ wholePath, Glob.steps_union_anywhere, htrailing,
    Glob.aligned_fromAnywhere_components_iff hsteps]
  constructor
  · rintro (⟨ending, hending, aligned⟩ | ⟨hends, shorter, hdrop, rest, hrest, aligned⟩)
    · exact ⟨ending, hending, Or.inl aligned⟩
    · obtain ⟨ending, hending, hdrop'⟩ := hrest.exists_dropLastSeparator? hdrop
      exact ⟨ending, hending, Or.inr ⟨hends, rest, hdrop', aligned⟩⟩
  · rintro ⟨ending, hending, aligned | ⟨hends, rest, hdrop, aligned⟩⟩
    · exact Or.inl ⟨ending, hending, aligned⟩
    · rcases hending.of_dropLastSeparator? hdrop with hrest | ⟨shorter, hdrop', hrest⟩
      · exact Or.inl ⟨rest, hrest, aligned⟩
      · exact Or.inr ⟨hends, shorter, hdrop', rest, hrest, aligned⟩

theorem patternAccepts_anywhere_iff_trailing :
    let options : MatchOptions := { trailingSeparator := true }
    options.repoRoot = false ∧
      patternAccepts "?/*b".toList "x\\a/cb\\".toList (options.union { anywhere := true }) = true ∧
      ∃ ending, Ending "x\\a/cb\\".toList ending ∧
        patternAccepts "?/*b".toList ending options = true := by
  intro options
  have wholePath : options.repoRoot = false := rfl
  have haccepts : patternAccepts "?/*b".toList "x\\a/cb\\".toList
      (options.union { anywhere := true }) = true := by decide +kernel
  exact ⟨wholePath, haccepts, (patternAccepts_anywhere_iff wholePath).mp haccepts⟩

/-- A pattern that takes everything below folders matches a path if the pattern, without one
separator at its end, matches the path or what comes before one of its separators; whether a
separator at the end of the path counts makes no difference. -/
theorem patternAccepts_belowFolders (pattern path : Text) (options : MatchOptions) :
    (options.repoRoot = false →
      (patternAccepts pattern path (options.union { belowFolders := true }) = true ↔
        ∃ beginning, Beginning path beginning ∧
          patternAccepts (dropFinalSeparator pattern) beginning
            (options.diff { trailingSeparator := true, belowFolders := true }) = true)) ∧
      patternAccepts pattern path
          (options.union { trailingSeparator := true, belowFolders := true }) =
        patternAccepts pattern path (options.union { belowFolders := true }) := by
  have hbelow : (options.union { belowFolders := true }).belowFolders = true := by
    simp
  constructor
  · intro wholePath
    have hboth : (options.union { belowFolders := true }).repoRoot = false := by
      simp [wholePath]
    have hplain : ∀ beginning, patternAccepts (dropFinalSeparator pattern) beginning
        (options.diff { trailingSeparator := true, belowFolders := true }) = true ↔
          Segment.Aligned ((Glob.compile (dropFinalSeparator pattern)).steps
            (options.diff { trailingSeparator := true, belowFolders := true }))
            (components beginning) := by
      intro beginning
      simp [patternAccepts, Glob.accepts_eq_true_iff, Glob.seenPath, wholePath]
    simp only [hplain]
    rw [patternAccepts, Glob.accepts_iff_of_belowFolders hbelow,
      Glob.seenPath_of_not_repoRoot _ _ hboth,
      Glob.steps_union_belowFolders, Glob.aligned_openEnded_components_iff (Glob.steps_ne_nil _ _)]
  · have hboth : options.union { trailingSeparator := true, belowFolders := true } =
        (options.union { belowFolders := true }).union { trailingSeparator := true } := by
      rw [MatchOptions.union_assoc]
      rfl
    have hmore : ((options.union { belowFolders := true }).union
        { trailingSeparator := true }).belowFolders = true := by
      simp
    rw [hboth, Bool.eq_iff_iff, patternAccepts, patternAccepts,
      Glob.accepts_iff_of_belowFolders hmore,
      Glob.accepts_iff_of_belowFolders hbelow, Glob.steps_union_trailingSeparator,
      Glob.seenPath_union_trailingSeparator]

theorem patternAccepts_belowFolders_empty :
    let options : MatchOptions := { anywhere := true, trailingSeparator := true }
    options.repoRoot = false ∧ dropFinalSeparator "/".toList = [] ∧
      patternAccepts "/".toList "a\\/.b/c".toList (options.union { belowFolders := true }) = true ∧
      ∃ beginning, Beginning "a\\/.b/c".toList beginning ∧
        patternAccepts (dropFinalSeparator "/".toList) beginning
          (options.diff { trailingSeparator := true, belowFolders := true }) = true := by
  intro options
  have wholePath : options.repoRoot = false := rfl
  have haccepts : patternAccepts "/".toList "a\\/.b/c".toList
      (options.union { belowFolders := true }) = true := by decide +kernel
  have hbeginning :=
    ((patternAccepts_belowFolders "/".toList "a\\/.b/c".toList options).1 wholePath).mp
    haccepts
  exact ⟨wholePath, by decide, haccepts, hbeginning⟩

end PathFilter
