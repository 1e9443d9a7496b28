import PathFilter.Proofs.Glob.OpenEnds
import PathFilter.Proofs.Glob.Separators

set_option autoImplicit false
set_option relaxedAutoImplicit false

namespace PathFilter

def withSlashes (text : Text) : Text := text.map fun c => if c = '\\' then '/' else c

private theorem withSlashes_cons (c : Char) (text : Text) :
    withSlashes (c :: text) = (if isSeparator c then '/' else c) :: withSlashes text := by
  rw [withSlashes, List.map_cons, withSlashes]
  congr 1
  by_cases hslash : c = '/'
  · rw [hslash]
    rfl
  · by_cases hback : c = '\\'
    · rw [hback]
      rfl
    · rw [if_neg hback, isSeparator_eq_false_iff.mpr ⟨hslash, hback⟩]
      rfl

private theorem sameButSeparators_withSlashes (text : Text) :
    SameButSeparators text (withSlashes text) := by
  induction text with
  | nil => exact List.Forall₂.nil
  | cons c text ih =>
    rw [withSlashes_cons]
    refine List.Forall₂.cons ?_ ih
    split_ifs with hc
    · exact Or.inr ⟨hc, by decide⟩
    · exact Or.inl rfl

private theorem intercalate_components (text : Text) :
    ['/'].intercalate (components text) = withSlashes text := by
  induction text with
  | nil => rfl
  | cons c text ih =>
    obtain ⟨first, others, hcut⟩ := List.exists_cons_of_ne_nil (components_ne_nil text)
    rw [withSlashes_cons, ← ih, hcut]
    cases hc : isSeparator c with
    | true =>
      rw [components_cons_of_separator hc, hcut, List.intercalate_cons_cons]
      rfl
    | false =>
      rw [components_cons_of_name hc, hcut, Text.consFirst]
      cases others <;> rfl

private theorem components_eq_iff {text other : Text} :
    components text = components other ↔ withSlashes text = withSlashes other := by
  constructor
  · intro h
    rw [← intercalate_components, h, intercalate_components]
  · intro h
    rw [(sameButSeparators_withSlashes text).components_eq, h,
      ← (sameButSeparators_withSlashes other).components_eq]

namespace Glob

private theorem segmentOf_injective : Function.Injective segmentOf := by
  intro component other h
  by_cases hother : other = ['*', '*']
  · -- Only this component has no name of its own.
    rw [hother] at h
    rw [hother]
    by_contra hne
    have hname : segmentOf component = .name component := if_neg hne
    exact Segment.noConfusion (hname.symm.trans h)
  · have hname : segmentOf other = .name other := if_neg hother
    exact (segmentOf_eq_name_iff.mp (h.trans hname)).2

/-- Segments tell the pattern apart from all others but those that differ in separators alone. -/
theorem segments_compile_eq_iff {pattern other : Text} :
    (compile pattern).segments = (compile other).segments ↔
      withSlashes pattern = withSlashes other := by
  rw [segments_compile, segments_compile, (List.map_injective_iff.mpr segmentOf_injective).eq_iff,
    components_eq_iff]

private theorem compile_withSlashes (pattern : Text) :
    compile (withSlashes pattern) = compile pattern :=
  (sameButSeparators_withSlashes pattern).compile_eq.symm

/-- Two patterns compile to the same glob if and only if they are the same text once every backslash
is written as a slash. What a glob notes of the beginning of its pattern follows from its segments,
and equal globs match the same paths under all options. -/
theorem compile_eq_iff (pattern other : Text) :
    (compile pattern = compile other ↔ withSlashes pattern = withSlashes other) ∧
      ((compile pattern).segments = (compile other).segments → compile pattern = compile other) ∧
      (compile pattern = compile other → ∀ (path : Text) (options : MatchOptions),
        patternAccepts pattern path options = patternAccepts other path options) := by
  have hcompile : withSlashes pattern = withSlashes other → compile pattern = compile other := by
    intro h
    rw [← compile_withSlashes pattern, h, compile_withSlashes]
  refine ⟨⟨?_, hcompile⟩, ?_, ?_⟩
  · intro h
    exact segments_compile_eq_iff.mp (congrArg segments h)
  · intro h
    exact hcompile (segments_compile_eq_iff.mp h)
  · intro h path options
    rw [patternAccepts, patternAccepts, h]

theorem compile_eq_iff_rooted :
    let pattern : Text := ['@', '\\', '*', '*', '/', 'a', '\\']
    let other : Text := ['@', '/', '*', '*', '\\', 'a', '/']
    (compile pattern).segments = (compile other).segments ∧ compile pattern = compile other ∧
      (∀ (path : Text) (options : MatchOptions),
        patternAccepts pattern path options = patternAccepts other path options) ∧
      compile pattern ≠ compile ['@', '/', '*', '*', '/', 'a'] := by
  intro pattern other
  obtain ⟨hsame, hsegments, hpaths⟩ := compile_eq_iff pattern other
  have hcompile : compile pattern = compile other := hsame.mpr (by decide)
  have hparts : (compile pattern).segments = (compile other).segments := by decide
  refine ⟨hparts, hsegments hparts, hpaths hcompile, ?_⟩
  intro h
  exact absurd ((compile_eq_iff pattern ['@', '/', '*', '*', '/', 'a']).1.mp h) (by decide)

end Glob

end PathFilter
