import PathFilter.Proofs.Glob.TrailingSeparators

/-!
Two different separators at the end of a path. Neither of them may be left out, so the option for a
trailing separator makes no difference, whatever the pattern. But a relative pattern looks at a path
from the root: where the path is the root marker and the two separators, the first of them goes with
the marker, and the other one, alone now, may be left out.
-/

set_option autoImplicit false
set_option relaxedAutoImplicit false

namespace PathFilter

def EndsInMixedPair (path : Text) : Prop :=
  ∃ start first second, isSeparator first = true ∧ isSeparator second = true ∧ first ≠ second ∧
    path = start ++ [first, second]

/-- Seen from the root, one of two separators is left: the pattern is relative, and the path is
nothing but the root marker and the two separators. -/
structure TearsPair (pattern path : Text) (options : MatchOptions) : Prop where
  repoRoot : options.repoRoot = true
  relative : IsRelative pattern
  path_eq : ∃ first second, path = rootMarker ++ [first, second]

private theorem dropLastSeparator?_of_mixed {first second : Char}
    (hfirst : isSeparator first = true) (hne : first ≠ second) (start : Text) :
    dropLastSeparator? (start ++ [first, second]) = none := by
  rw [Option.eq_none_iff_forall_ne_some]
  intro shorter hdrop
  have hsplit : start ++ [first, second] = (start ++ [first]) ++ [second] := by simp
  rw [hsplit] at hdrop
  obtain ⟨-, -, hequal⟩ := dropLastSeparator?_concat.mp hdrop
  exact hne (hequal start first rfl hfirst)

private theorem atRoot_iff_tearsPair {pattern start : Text} {options : MatchOptions}
    (first second : Char) :
    Glob.AtRoot (Glob.compile pattern) start options ↔
      TearsPair pattern (start ++ [first, second]) options := by
  constructor
  · intro root
    refine ⟨root.repoRoot, isRelative_iff.mpr ⟨root.rooted, root.absolute⟩, first, second, ?_⟩
    rw [root.path_eq]
  · rintro ⟨hroot, relative, a, b, hpath⟩
    obtain ⟨hrooted, habsolute⟩ := isRelative_iff.mp relative
    exact ⟨hroot, hrooted, habsolute, (List.append_inj' hpath rfl).1⟩

private theorem Glob.accepts_union_trailingSeparator_iff {glob : Glob} {path : Text}
    {options : MatchOptions} :
    glob.accepts path (options.union { trailingSeparator := true }) = true ↔
      glob.accepts path (options.diff { trailingSeparator := true }) = true ∨
        ∃ shorter, dropLastSeparator? (glob.seenPath path options) = some shorter ∧
          Segment.Aligned (glob.steps options) (components shorter) := by
  rw [accepts_eq_true_iff, accepts_eq_true_iff, steps_union_trailingSeparator,
    seenPath_union_trailingSeparator, steps_diff_trailingSeparator, seenPath_diff_trailingSeparator]
  simp

private theorem patternAccepts_empty_iff {pattern : Text} {options : MatchOptions} :
    patternAccepts pattern [] options = true ↔
      Segment.Aligned ((Glob.compile pattern).steps options) (components []) := by
  have hseen : (Glob.compile pattern).seenPath [] options = [] := by
    rw [Glob.seenPath, Glob.relativePath_of_unrooted _ (by decide), ite_self]
  rw [patternAccepts, Glob.accepts_iff_of_not_endsInSeparator rfl, hseen]

/-- For a path that ends in two different separators the option for a trailing separator changes
nothing. The exception is the root marker with two such separators behind it, seen from the root by
a relative pattern: with the option, the pattern then matches if it matches the path or the empty
path. -/
theorem patternAccepts_mixedSeparators {path : Text} (pattern : Text) (options : MatchOptions)
    (mixed : EndsInMixedPair path) :
    (¬ TearsPair pattern path options →
      patternAccepts pattern path (options.union { trailingSeparator := true }) =
        patternAccepts pattern path (options.diff { trailingSeparator := true })) ∧
    (TearsPair pattern path options →
      patternAccepts pattern path (options.union { trailingSeparator := true }) =
        (patternAccepts pattern path (options.diff { trailingSeparator := true }) ||
          patternAccepts pattern [] options)) := by
  obtain ⟨start, first, second, hfirst, hsecond, hne, rfl⟩ := mixed
  have hmarks : ∀ mark ∈ [first, second], isSeparator mark = true := by simp [hfirst, hsecond]
  rw [← atRoot_iff_tearsPair first second]
  constructor
  · intro hroot
    have hnone :
        dropLastSeparator? ((Glob.compile pattern).seenPath (start ++ [first, second]) options) =
        none := by
      rw [Glob.seenPath_append_of_not_atRoot hroot hmarks]
      exact dropLastSeparator?_of_mixed hfirst hne _
    rw [Bool.eq_iff_iff, patternAccepts, patternAccepts, Glob.accepts_union_trailingSeparator_iff,
      hnone]
    simp
  · intro hroot
    have hempty :
        dropLastSeparator? ((Glob.compile pattern).seenPath (start ++ [first, second]) options) =
        some [] := by
      have hstart : endsInSeparator ([] : Text) = false := rfl
      rw [hroot.seenPath_append hmarks]
      exact dropLastSeparator?_concat_separator hstart hsecond
    rw [Bool.eq_iff_iff, Bool.or_eq_true, patternAccepts_empty_iff, patternAccepts, patternAccepts,
      Glob.accepts_union_trailingSeparator_iff, hempty]
    simp

theorem patternAccepts_mixedSeparators_torn :
    let options : MatchOptions := { anywhere := true, repoRoot := true, belowFolders := true }
    let path := "@/\\".toList
    (EndsInMixedPair path ∧ ¬ TearsPair "@/".toList path options ∧
      TearsPair "*".toList path options) ∧
      patternAccepts "@/".toList path (options.union { trailingSeparator := true }) =
        patternAccepts "@/".toList path (options.diff { trailingSeparator := true }) ∧
      patternAccepts "*".toList path (options.union { trailingSeparator := true }) =
        (patternAccepts "*".toList path (options.diff { trailingSeparator := true }) ||
          patternAccepts "*".toList [] options) := by
  intro options path
  have mixed : EndsInMixedPair path :=
    ⟨['@'], '/', '\\', by decide, by decide, by decide, by decide⟩
  have whole : ¬ TearsPair "@/".toList path options := fun torn => absurd torn.relative (by decide)
  have torn : TearsPair "*".toList path options := ⟨rfl, by decide, '/', '\\', by decide⟩
  exact ⟨⟨mixed, whole, torn⟩, (patternAccepts_mixedSeparators _ options mixed).1 whole,
    (patternAccepts_mixedSeparators _ options mixed).2 torn⟩

/-- The exception is one: seen from the root, `*` takes what is left of such a path without its last
separator, though the path ends in two different ones. -/
theorem not_forall_mixedSeparators_kept :
    ¬ ∀ (pattern path : Text) (options : MatchOptions), EndsInMixedPair path →
      patternAccepts pattern path (options.union { trailingSeparator := true }) =
        patternAccepts pattern path (options.diff { trailingSeparator := true }) := by
  intro kept
  have mixed : EndsInMixedPair "@/\\".toList :=
    ⟨['@'], '/', '\\', by decide, by decide, by decide, by decide⟩
  have equal := kept "*".toList "@/\\".toList { repoRoot := true } mixed
  exact absurd equal (by decide +kernel)

end PathFilter
