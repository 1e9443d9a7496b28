import PathFilter.Glob.Basic
import PathFilter.Proofs.Glob.Alignment

set_option autoImplicit false
set_option relaxedAutoImplicit false

namespace PathFilter

/-- The pieces of a text between slashes and backslashes, empty ones included. -/
inductive Pieces : Text → List Text → Prop
  | last {piece : Text} : (∀ c ∈ piece, c ≠ '/' ∧ c ≠ '\\') → Pieces piece [piece]
  | cons {piece : Text} {mark : Char} {rest : Text} {pieces : List Text} :
      (∀ c ∈ piece, c ≠ '/' ∧ c ≠ '\\') → mark = '/' ∨ mark = '\\' → Pieces rest pieces →
      Pieces (piece ++ mark :: rest) (piece :: pieces)

/-- The components of a path are divided among those of a pattern: `**` takes any run of them, every
other component one that it fits. -/
inductive Divided : List Text → List Text → Prop
  | nil : Divided [] []
  | depth {parts names : List Text} (run : List Text) :
      Divided parts names → Divided (['*', '*'] :: parts) (run ++ names)
  | name {part name : Text} {parts names : List Text} :
      part ≠ ['*', '*'] → Segment.NameFits part name → Divided parts names →
      Divided (part :: parts) (name :: names)

theorem isSeparator_eq_true_iff {c : Char} : isSeparator c = true ↔ c = '/' ∨ c = '\\' := by
  simp [isSeparator]

theorem isSeparator_eq_false_iff {c : Char} : isSeparator c = false ↔ c ≠ '/' ∧ c ≠ '\\' := by
  simp [isSeparator]

theorem components_append (left right : Text) {mark : Char} (hmark : isSeparator mark = true) :
    components (left ++ mark :: right) = components left ++ components right :=
  Text.cut_append isSeparator left right mark hmark

theorem components_of_forall {text : Text} (h : ∀ c ∈ text, isSeparator c = false) :
    components text = [text] :=
  Text.cut_of_forall isSeparator h

private theorem components_of_pieces {text : Text} {pieces : List Text} (h : Pieces text pieces) :
    components text = pieces := by
  induction h with
  | last hpiece =>
    exact components_of_forall fun c hc => isSeparator_eq_false_iff.mpr (hpiece c hc)
  | cons hpiece hmark _ ih =>
    have hone := components_of_forall fun c hc => isSeparator_eq_false_iff.mpr (hpiece c hc)
    rw [components_append _ _ (isSeparator_eq_true_iff.mpr hmark), hone, ih]
    rfl

private theorem pieces_cons {c : Char} {text : Text} {pieces : List Text} (hc : c ≠ '/' ∧ c ≠ '\\')
    (h : Pieces text pieces) : Pieces (c :: text) (Text.consFirst c pieces) := by
  have grown {piece : Text} (hpiece : ∀ d ∈ piece, d ≠ '/' ∧ d ≠ '\\') :
      ∀ d ∈ c :: piece, d ≠ '/' ∧ d ≠ '\\' := by
    intro d hd
    obtain rfl | hd := List.mem_cons.mp hd
    · exact hc
    · exact hpiece d hd
  cases h with
  | last hpiece => exact Pieces.last (grown hpiece)
  | cons hpiece hmark hrest => exact Pieces.cons (grown hpiece) hmark hrest

private theorem pieces_components (text : Text) : Pieces text (components text) := by
  induction text with
  | nil => exact Pieces.last (by simp)
  | cons c text ih =>
    unfold components Text.cut
    split_ifs with hc
    · have hempty : ∀ d ∈ ([] : Text), d ≠ '/' ∧ d ≠ '\\' := by
        intro d hd
        cases hd
      exact Pieces.cons hempty (isSeparator_eq_true_iff.mp hc) ih
    · exact pieces_cons (isSeparator_eq_false_iff.mp (by simpa using hc)) ih

theorem pieces_iff {text : Text} {pieces : List Text} :
    Pieces text pieces ↔ components text = pieces := by
  constructor
  · exact components_of_pieces
  · rintro rfl
    exact pieces_components text

theorem aligned_segmentOf_iff {parts names : List Text} :
    Segment.Aligned (parts.map Glob.segmentOf) names ↔ Divided parts names := by
  induction parts generalizing names with
  | nil =>
    rw [List.map_nil, Segment.aligned_nil_iff]
    constructor
    · rintro rfl
      exact Divided.nil
    · intro h
      cases h
      rfl
  | cons part parts ih =>
    rw [List.map_cons, Glob.segmentOf]
    split_ifs with hpart
    · subst hpart
      rw [Segment.aligned_anyDepth_iff]
      constructor
      · rintro ⟨run, rest, rfl, aligned⟩
        exact Divided.depth run (ih.mp aligned)
      · intro h
        cases h with
        | depth run divided => exact ⟨run, _, rfl, ih.mpr divided⟩
        | name hne => exact absurd rfl hne
    · rw [Segment.aligned_name_iff]
      constructor
      · rintro ⟨name, rest, rfl, fits, aligned⟩
        exact Divided.name hpart fits (ih.mp aligned)
      · intro h
        cases h with
        | depth => exact absurd rfl hpart
        | name _ fits divided => exact ⟨_, _, rfl, fits, ih.mpr divided⟩

namespace Glob

def seenPath (glob : Glob) (path : Text) (options : MatchOptions) : Text :=
  if options.repoRoot then glob.relativePath path else path

/-- A glob matches if its steps take the path, or the path without a last separator where that does
not count. -/
theorem accepts_eq_true_iff {glob : Glob} {path : Text} {options : MatchOptions} :
    glob.accepts path options = true ↔
      Segment.Aligned (glob.steps options) (components (glob.seenPath path options)) ∨
        options.trailingSeparator = true ∧
          ∃ shorter, dropLastSeparator? (glob.seenPath path options) = some shorter ∧
            Segment.Aligned (glob.steps options) (components shorter) := by
  simp only [accepts, seenPath, Bool.or_eq_true, Bool.and_eq_true, Option.any_eq_true,
    Segment.tableAligns_eq_true_iff]

end Glob

/-- Without options that widen the pattern or narrow the path, a pattern matches the paths whose
components can be divided among its own. -/
theorem patternAccepts_iff_divided {pattern path : Text} {options : MatchOptions}
    (anywhere : options.anywhere = false) (repoRoot : options.repoRoot = false)
    (trailingSeparator : options.trailingSeparator = false)
    (belowFolders : options.belowFolders = false) :
    patternAccepts pattern path options = true ↔
      ∃ parts names, Pieces pattern parts ∧ Pieces path names ∧ Divided parts names := by
  have hseen : (Glob.compile pattern).seenPath path options = path := by
    simp [Glob.seenPath, repoRoot]
  have hsteps : (Glob.compile pattern).steps options = (components pattern).map Glob.segmentOf := by
    simp [Glob.steps, Glob.compile, anywhere, belowFolders]
  rw [patternAccepts, Glob.accepts_eq_true_iff, hseen, hsteps, aligned_segmentOf_iff,
    trailingSeparator]
  constructor
  · rintro (divided | ⟨htrailing, -⟩)
    · exact ⟨_, _, pieces_iff.mpr rfl, pieces_iff.mpr rfl, divided⟩
    · exact absurd htrailing Bool.false_ne_true
  · rintro ⟨parts, names, hparts, hnames, divided⟩
    rw [pieces_iff.mp hparts, pieces_iff.mp hnames]
    exact Or.inl divided

theorem patternAccepts_iff_divided_hidden :
    patternAccepts "src/**/.*/**\\*_?.c".toList "src\\.git/a//.b/x_y_é.c".toList
        { missingPattern := true, missingPath := true } = true ∧
      ∃ parts names, Pieces "src/**/.*/**\\*_?.c".toList parts ∧
        Pieces "src\\.git/a//.b/x_y_é.c".toList names ∧ Divided parts names := by
  have haccepts : patternAccepts "src/**/.*/**\\*_?.c".toList "src\\.git/a//.b/x_y_é.c".toList
      { missingPattern := true, missingPath := true } = true := by decide +kernel
  exact ⟨haccepts, (patternAccepts_iff_divided rfl rfl rfl rfl).mp haccepts⟩

end PathFilter
