import PathFilter.Proofs.Glob.Boundaries

/-!
Segments that are open at an end. The option to begin anywhere opens the steps of a glob at the
front (`fromAnywhere`), the one for everything below folders opens at the back (`openEnded`) what
the pattern gives without a separator at its end. Open at the front, segments take a path if they
take an ending of it; open at the back, if they take a beginning.
-/

set_option autoImplicit false
set_option relaxedAutoImplicit false

namespace PathFilter

namespace Segment

private theorem aligned_append_iff {left right : List Segment} {names : List Text} :
    Aligned (left ++ right) names ↔
      ∃ first last, names = first ++ last ∧ Aligned left first ∧ Aligned right last := by
  induction left generalizing names with
  | nil =>
    simp only [aligned_nil_iff, List.nil_append]
    constructor
    · intro aligned
      exact ⟨[], names, rfl, rfl, aligned⟩
    · rintro ⟨-, last, rfl, rfl, aligned⟩
      exact aligned
  | cons segment left ih =>
    cases segment with
    | anyDepth =>
      simp only [List.cons_append, aligned_anyDepth_iff, ih]
      constructor
      · rintro ⟨run, -, rfl, first, last, rfl, hleft, hright⟩
        exact ⟨run ++ first, last, (List.append_assoc ..).symm, ⟨run, first, rfl, hleft⟩, hright⟩
      · rintro ⟨-, last, rfl, ⟨run, first, rfl, hleft⟩, hright⟩
        exact ⟨run, first ++ last, List.append_assoc .., first, last, rfl, hleft, hright⟩
    | name pattern =>
      simp only [List.cons_append, aligned_name_iff, ih]
      constructor
      · rintro ⟨name, -, rfl, fits, first, last, rfl, hleft, hright⟩
        exact ⟨name :: first, last, rfl, ⟨name, first, rfl, fits, hleft⟩, hright⟩
      · rintro ⟨-, last, rfl, ⟨name, first, rfl, fits, hleft⟩, hright⟩
        exact ⟨name, first ++ last, rfl, fits, first, last, rfl, hleft, hright⟩

private theorem aligned_concat_anyDepth_iff {segments : List Segment} {names : List Text} :
    Aligned (segments ++ [.anyDepth]) names ↔
      ∃ first, first <+: names ∧ Aligned segments first := by
  rw [aligned_append_iff]
  constructor
  · rintro ⟨first, last, rfl, aligned, -⟩
    exact ⟨first, List.prefix_append first last, aligned⟩
  · rintro ⟨first, ⟨last, rfl⟩, aligned⟩
    exact ⟨first, last, rfl, aligned, aligned_anyDepth_iff.mpr
      ⟨last, [], (List.append_nil last).symm, Aligned.nil⟩⟩

theorem aligned_concat_name_iff {segments : List Segment} {pattern : List Char}
    {names : List Text} :
    Aligned (segments ++ [.name pattern]) names ↔
      ∃ first last, names = first ++ [last] ∧ Aligned segments first ∧ NameFits pattern last := by
  rw [aligned_append_iff]
  constructor
  · rintro ⟨first, others, rfl, aligned, hothers⟩
    obtain ⟨last, rest, rfl, fits, hrest⟩ := aligned_name_iff.mp hothers
    rw [aligned_nil_iff] at hrest
    exact ⟨first, last, by rw [hrest], aligned, fits⟩
  · rintro ⟨first, last, rfl, aligned, fits⟩
    exact ⟨first, [last], rfl, aligned, aligned_name_iff.mpr ⟨last, [], rfl, fits, Aligned.nil⟩⟩

private theorem aligned_anyDepth_cons_iff_suffix {segments : List Segment} {names : List Text} :
    Aligned (.anyDepth :: segments) names ↔ ∃ last, last <:+ names ∧ Aligned segments last := by
  rw [aligned_anyDepth_iff]
  constructor
  · rintro ⟨run, rest, rfl, aligned⟩
    exact ⟨rest, List.suffix_append run rest, aligned⟩
  · rintro ⟨rest, ⟨run, rfl⟩, aligned⟩
    exact ⟨run, rest, rfl, aligned⟩

end Segment

namespace Glob

open Segment (Aligned)

variable {segments others : List Segment} {names : List Text}

def openEnded (segments : List Segment) : List Segment :=
  if segments.getLast? = some .anyDepth then segments else segments ++ [.anyDepth]

/-- The segments of a match, before the one for everything below. -/
def openedFront (options : MatchOptions) (segments : List Segment) : List Segment :=
  if options.anywhere then fromAnywhere segments else segments

private theorem fromAnywhere_anyDepth (rest : List Segment) :
    fromAnywhere (.anyDepth :: rest) = .anyDepth :: rest := rfl

private theorem fromAnywhere_name (pattern : List Char) (rest : List Segment) :
    fromAnywhere (.name pattern :: rest) = .anyDepth :: .name pattern :: rest := rfl

private theorem openEnded_anyDepth (front : List Segment) :
    openEnded (front ++ [.anyDepth]) = front ++ [.anyDepth] := if_pos List.getLast?_concat

private theorem openEnded_name (front : List Segment) (pattern : List Char) :
    openEnded (front ++ [.name pattern]) = front ++ [.name pattern] ++ [.anyDepth] :=
  if_neg (by simp)

private theorem openEnded_ne_nil (segments : List Segment) : openEnded segments ≠ [] := by
  rcases List.eq_nil_or_concat' segments with rfl | ⟨front, last, rfl⟩
  · exact List.cons_ne_nil _ _
  · cases last <;> simp [openEnded]

private theorem fromAnywhere_append (h : segments ≠ []) :
    fromAnywhere (segments ++ others) = fromAnywhere segments ++ others := by
  obtain ⟨segment, rest, rfl⟩ := List.exists_cons_of_ne_nil h
  cases segment <;> rfl

private theorem fromAnywhere_fromAnywhere (segments : List Segment) :
    fromAnywhere (fromAnywhere segments) = fromAnywhere segments := by
  cases segments with
  | nil => rfl
  | cons segment rest => cases segment <;> rfl

private theorem getLast?_fromAnywhere (h : segments ≠ []) :
    (fromAnywhere segments).getLast? = segments.getLast? := by
  obtain ⟨front, last, rfl⟩ := (List.eq_nil_or_concat' segments).resolve_left h
  rw [fromAnywhere]
  split_ifs
  · rfl
  · rw [← List.cons_append, List.getLast?_concat, List.getLast?_concat]

private theorem openEnded_fromAnywhere (h : segments ≠ []) :
    openEnded (fromAnywhere segments) = fromAnywhere (openEnded segments) := by
  simp only [openEnded, getLast?_fromAnywhere h]
  split_ifs
  · rfl
  · exact (fromAnywhere_append h).symm

theorem aligned_fromAnywhere_iff (hsegments : segments ≠ []) (hnames : names ≠ []) :
    Aligned (fromAnywhere segments) names ↔
      ∃ last, (last ≠ [] ∧ last <:+ names) ∧ Aligned segments last := by
  obtain ⟨segment, rest, rfl⟩ := List.exists_cons_of_ne_nil hsegments
  cases segment with
  | anyDepth =>
    rw [fromAnywhere_anyDepth]
    constructor
    · intro aligned
      exact ⟨names, ⟨hnames, List.suffix_rfl⟩, aligned⟩
    · rintro ⟨last, ⟨-, hlast⟩, aligned⟩
      obtain ⟨tail, htail, aligned⟩ := Segment.aligned_anyDepth_cons_iff_suffix.mp aligned
      exact Segment.aligned_anyDepth_cons_iff_suffix.mpr ⟨tail, htail.trans hlast, aligned⟩
  | name pattern =>
    rw [fromAnywhere_name, Segment.aligned_anyDepth_cons_iff_suffix]
    constructor
    · rintro ⟨last, hlast, aligned⟩
      -- a name pattern in front takes a component, so the last components are not none at all
      obtain ⟨name, tail, rfl, -, -⟩ := Segment.aligned_name_iff.mp aligned
      exact ⟨name :: tail, ⟨List.cons_ne_nil name tail, hlast⟩, aligned⟩
    · rintro ⟨last, ⟨-, hlast⟩, aligned⟩
      exact ⟨last, hlast, aligned⟩

theorem aligned_openEnded_of_prefix {first : List Text} (hfirst : first <+: names)
    (aligned : Aligned segments first) : Aligned (openEnded segments) names := by
  rw [openEnded]
  split_ifs with hlast
  · -- the run of the last segment goes on to the end
    obtain ⟨front, rfl⟩ := List.getLast?_eq_some_iff.mp hlast
    obtain ⟨before, hbefore, aligned⟩ := Segment.aligned_concat_anyDepth_iff.mp aligned
    exact Segment.aligned_concat_anyDepth_iff.mpr ⟨before, hbefore.trans hfirst, aligned⟩
  · exact Segment.aligned_concat_anyDepth_iff.mpr ⟨first, hfirst, aligned⟩

theorem aligned_openEnded_iff (hsegments : segments ≠ []) (hnames : names ≠ []) :
    Aligned (openEnded segments) names ↔
      ∃ first, (first ≠ [] ∧ first <+: names) ∧ Aligned segments first := by
  constructor
  · intro aligned
    obtain ⟨front, last, rfl⟩ := (List.eq_nil_or_concat' segments).resolve_left hsegments
    cases last with
    | anyDepth =>
      rw [openEnded_anyDepth] at aligned
      exact ⟨names, ⟨hnames, List.prefix_rfl⟩, aligned⟩
    | name pattern =>
      rw [openEnded_name] at aligned
      obtain ⟨first, hfirst, aligned⟩ := Segment.aligned_concat_anyDepth_iff.mp aligned
      -- a name pattern at the end takes a component, so the first components are not none at all
      obtain ⟨before, name, rfl, -, -⟩ := Segment.aligned_concat_name_iff.mp aligned
      exact ⟨before ++ [name], ⟨by simp, hfirst⟩, aligned⟩
  · rintro ⟨first, ⟨-, hfirst⟩, aligned⟩
    exact aligned_openEnded_of_prefix hfirst aligned

theorem segments_compile (pattern : Text) :
    (compile pattern).segments = (components pattern).map segmentOf := rfl

theorem segments_compile_ne_nil (pattern : Text) : (compile pattern).segments ≠ [] := by
  rw [segments_compile, ne_eq, List.map_eq_nil_iff]
  exact components_ne_nil pattern

theorem segmentOf_eq_name_iff {component : Text} {pattern : List Char} :
    segmentOf component = .name pattern ↔ component ≠ ['*', '*'] ∧ component = pattern := by
  rw [segmentOf]
  split_ifs with h <;> simp [h]

private theorem getLast?_segments_compile_iff {pattern : Text} :
    (compile pattern).segments.getLast? = some (.name []) ↔
      pattern = [] ∨ endsInSeparator pattern = true := by
  rw [segments_compile, List.getLast?_map, Option.map_eq_some_iff, ← getLast?_components_eq_nil_iff]
  constructor
  · rintro ⟨component, hlast, hcomponent⟩
    rw [hlast, (segmentOf_eq_name_iff.mp hcomponent).2]
  · intro hlast
    exact ⟨[], hlast, rfl⟩

theorem segments_compile_concat_separator (pattern : Text) {mark : Char}
    (hmark : isSeparator mark = true) :
    (compile (pattern ++ [mark])).segments = (compile pattern).segments ++ [.name []] := by
  rw [segments_compile, components_concat_separator pattern hmark, List.map_append]
  rfl

private theorem downward_eq (several : Bool) (segments : List Segment) :
    downward several segments =
      openEnded
        (if several && segments.getLast? = some (.name []) then segments.dropLast else segments) :=
  rfl

theorem steps_of_not_belowFolders {glob : Glob} {options : MatchOptions}
    (h : options.belowFolders = false) :
    glob.steps options = openedFront options glob.segments := by
  rw [steps, h, openedFront]
  rfl

theorem getLast?_openedFront {options : MatchOptions} (h : segments ≠ []) :
    (openedFront options segments).getLast? = segments.getLast? := by
  rw [openedFront]
  split_ifs
  · exact getLast?_fromAnywhere h
  · rfl

theorem openedFront_ne_nil {options : MatchOptions} (h : segments ≠ []) :
    openedFront options segments ≠ [] := by
  rw [ne_eq, ← List.getLast?_eq_none_iff, getLast?_openedFront h, List.getLast?_eq_none_iff]
  exact h

theorem openedFront_append {options : MatchOptions} (h : segments ≠ []) :
    openedFront options (segments ++ others) = openedFront options segments ++ others := by
  rw [openedFront, openedFront]
  split_ifs
  · exact fromAnywhere_append h
  · rfl

theorem steps_of_belowFolders {pattern : Text} {options : MatchOptions}
    (h : options.belowFolders = true) :
    (compile pattern).steps options =
      openEnded (openedFront options (compile (dropFinalSeparator pattern)).segments) := by
  have hdownward : (compile pattern).steps options =
      downward (1 < (compile pattern).segments.length)
        (openedFront options (compile pattern).segments) := by
    rw [steps, h]
    rfl
  rw [hdownward, downward_eq, getLast?_openedFront (segments_compile_ne_nil pattern)]
  cases hends : endsInSeparator pattern with
  | true =>
    obtain ⟨front, mark, hmark, rfl⟩ := endsInSeparator_eq_true_iff.mp hends
    have hsegments := segments_compile_concat_separator front hmark
    have hne : (compile front).segments ≠ [] := segments_compile_ne_nil front
    have hseveral : 1 < (compile (front ++ [mark])).segments.length := by
      rw [hsegments, List.length_append, List.length_singleton]
      exact Nat.lt_add_of_pos_left (List.length_pos_iff.mpr hne)
    rw [dropFinalSeparator_concat front hmark, if_pos, hsegments, openedFront_append hne,
      List.dropLast_concat]
    rw [decide_eq_true hseveral, hsegments, List.getLast?_concat]
    rfl
  | false =>
    rw [dropFinalSeparator_eq_self hends, if_neg]
    -- only the empty pattern ends in an empty component without a separator before it
    rw [Bool.and_eq_true, decide_eq_true_iff, decide_eq_true_iff, getLast?_segments_compile_iff,
      hends]
    rintro ⟨hseveral, rfl | hends'⟩
    · exact absurd hseveral (by decide)
    · exact absurd hends' Bool.false_ne_true

theorem steps_union_anywhere (pattern : Text) (options : MatchOptions) :
    (compile pattern).steps (options.union { anywhere := true }) =
      fromAnywhere ((compile pattern).steps options) := by
  have hfront : ∀ segments, openedFront (options.union { anywhere := true }) segments =
      fromAnywhere (openedFront options segments) := by
    intro segments
    simp only [openedFront, MatchOptions.anywhere_union, Bool.or_true, if_true]
    split_ifs
    · exact (fromAnywhere_fromAnywhere segments).symm
    · rfl
  cases hbelow : options.belowFolders with
  | false =>
    have hboth : (options.union { anywhere := true }).belowFolders = false := by
      simp [hbelow]
    rw [steps_of_not_belowFolders hboth, steps_of_not_belowFolders hbelow, hfront]
  | true =>
    have hboth : (options.union { anywhere := true }).belowFolders = true := by
      simp [hbelow]
    rw [steps_of_belowFolders hboth, steps_of_belowFolders hbelow, hfront,
      openEnded_fromAnywhere (openedFront_ne_nil (segments_compile_ne_nil _))]

theorem steps_union_belowFolders (pattern : Text) (options : MatchOptions) :
    (compile pattern).steps (options.union { belowFolders := true }) =
      openEnded ((compile (dropFinalSeparator pattern)).steps
        (options.diff { trailingSeparator := true, belowFolders := true })) := by
  have hbelow : (options.union { belowFolders := true }).belowFolders = true := by
    simp
  have hplain : (options.diff { trailingSeparator := true, belowFolders := true }).belowFolders =
      false := by
    simp
  rw [steps_of_belowFolders hbelow, steps_of_not_belowFolders hplain]
  simp [openedFront]

theorem steps_union_trailingSeparator (glob : Glob) (options : MatchOptions) :
    glob.steps (options.union { trailingSeparator := true }) = glob.steps options := by
  simp [steps]

theorem seenPath_union_trailingSeparator (glob : Glob) (path : Text) (options : MatchOptions) :
    glob.seenPath path (options.union { trailingSeparator := true }) =
      glob.seenPath path options := by
  simp [seenPath]

theorem steps_diff_trailingSeparator (glob : Glob) (options : MatchOptions) :
    glob.steps (options.diff { trailingSeparator := true }) = glob.steps options := by
  simp [steps]

theorem seenPath_diff_trailingSeparator (glob : Glob) (path : Text) (options : MatchOptions) :
    glob.seenPath path (options.diff { trailingSeparator := true }) =
      glob.seenPath path options := by
  simp [seenPath]

theorem steps_ne_nil (pattern : Text) (options : MatchOptions) :
    (compile pattern).steps options ≠ [] := by
  cases hbelow : options.belowFolders with
  | false =>
    rw [steps_of_not_belowFolders hbelow]
    exact openedFront_ne_nil (segments_compile_ne_nil pattern)
  | true =>
    rw [steps_of_belowFolders hbelow]
    exact openEnded_ne_nil _

/-- Open at the front, the segments take a path if they take an ending of it. -/
theorem aligned_fromAnywhere_components_iff (h : segments ≠ []) {path : Text} :
    Aligned (fromAnywhere segments) (components path) ↔
      ∃ ending, Ending path ending ∧ Aligned segments (components ending) := by
  rw [aligned_fromAnywhere_iff h (components_ne_nil path)]
  simp only [← exists_ending_iff]
  constructor
  · rintro ⟨-, ⟨ending, hending, rfl⟩, aligned⟩
    exact ⟨ending, hending, aligned⟩
  · rintro ⟨ending, hending, aligned⟩
    exact ⟨_, ⟨ending, hending, rfl⟩, aligned⟩

/-- Open at the back, the segments take a path if they take a beginning of it. -/
theorem aligned_openEnded_components_iff (h : segments ≠ []) {path : Text} :
    Aligned (openEnded segments) (components path) ↔
      ∃ beginning, Beginning path beginning ∧ Aligned segments (components beginning) := by
  rw [aligned_openEnded_iff h (components_ne_nil path)]
  simp only [← exists_beginning_iff]
  constructor
  · rintro ⟨-, ⟨beginning, hbeginning, rfl⟩, aligned⟩
    exact ⟨beginning, hbeginning, aligned⟩
  · rintro ⟨beginning, hbeginning, aligned⟩
    exact ⟨_, ⟨beginning, hbeginning, rfl⟩, aligned⟩

end Glob

end PathFilter
