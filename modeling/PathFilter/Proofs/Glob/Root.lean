import Mathlib.Tactic.SplitIfs
import PathFilter.Proofs.Glob.Matching

set_option autoImplicit false
set_option relaxedAutoImplicit false

namespace PathFilter

/-- The first component of a text is exactly the root marker. -/
def NamesRoot (text : Text) : Prop := (components text).head? = some rootMarker

instance : DecidablePred NamesRoot := fun text =>
  inferInstanceAs (Decidable ((components text).head? = some rootMarker))

theorem components_cons_of_separator {c : Char} (hc : isSeparator c = true) (text : Text) :
    components (c :: text) = [] :: components text := by
  rw [components, Text.cut, if_pos hc, components]

theorem components_cons_of_name {c : Char} (hc : isSeparator c = false) (text : Text) :
    components (c :: text) = Text.consFirst c (components text) := by
  rw [components, Text.cut, if_neg (by simp [hc]), components]

private theorem head?_components_cons {c : Char} (hc : isSeparator c = false) (text : Text) :
    (components (c :: text)).head? = (components text).head?.map (c :: ·) := by
  rw [components_cons_of_name hc]
  cases h : components text with
  | nil => exact absurd h (Text.cut_ne_nil _ _)
  | cons piece rest => rfl

private theorem head?_components_eq_nil_iff {text : Text} :
    (components text).head? = some [] ↔ atBoundary text = true := by
  cases text with
  | nil => simp [components, Text.cut, atBoundary]
  | cons c text =>
    cases hc : isSeparator c with
    | true => simp [components_cons_of_separator hc, atBoundary, hc]
    | false =>
      rw [head?_components_cons hc]
      simp [atBoundary, hc]

theorem afterRoot?_eq_some_iff {text rest : Text} :
    afterRoot? text = some rest ↔ text = '@' :: rest ∧ atBoundary rest = true := by
  rw [afterRoot?, Option.filter_eq_some_iff]
  apply and_congr_left
  intro _
  cases text with
  | nil => simp [rootMarker, Text.after?]
  | cons c text =>
    by_cases hc : '@' = c
    · subst hc
      simp [rootMarker, Text.after?]
    · simp [rootMarker, Text.after?, hc, Ne.symm hc]

theorem namesRoot_iff {text : Text} : NamesRoot text ↔ ∃ rest, afterRoot? text = some rest := by
  simp only [afterRoot?_eq_some_iff]
  cases text with
  | nil => simp [NamesRoot, components, Text.cut, rootMarker]
  | cons c text =>
    cases hc : isSeparator c with
    | true =>
      have hne : c ≠ '@' := by
        rintro rfl
        exact absurd hc (by decide)
      simp [NamesRoot, components_cons_of_separator hc, rootMarker, hne]
    | false =>
      rw [NamesRoot, head?_components_cons hc, Option.map_eq_some_iff]
      constructor
      · rintro ⟨piece, hhead, hpiece⟩
        obtain ⟨rfl, rfl⟩ := List.cons.inj hpiece
        exact ⟨text, rfl, head?_components_eq_nil_iff.mp hhead⟩
      · rintro ⟨rest, htext, hboundary⟩
        obtain ⟨rfl, rfl⟩ := List.cons.inj htext
        exact ⟨[], head?_components_eq_nil_iff.mpr hboundary, rfl⟩

private theorem afterRoot?_eq_none {text : Text} (unrooted : ¬ NamesRoot text) :
    afterRoot? text = none := by
  cases h : afterRoot? text with
  | none => rfl
  | some rest => exact absurd (namesRoot_iff.mpr ⟨rest, h⟩) unrooted

namespace Glob

theorem rooted_compile_iff {pattern : Text} :
    (compile pattern).rooted = true ↔ NamesRoot pattern := by
  rw [namesRoot_iff, ← Option.isSome_iff_exists]
  rfl

private theorem absolute_compile_iff {pattern : Text} :
    (compile pattern).absolute = true ↔
      ∃ mark rest, isSeparator mark = true ∧ pattern = mark :: rest := by
  cases pattern with
  | nil => simp [compile]
  | cons c rest => simp [compile]

end Glob

/-- A pattern that does not begin with a separator and whose first component is not the root marker.
-/
structure IsRelative (pattern : Text) : Prop where
  unmarked : ∀ mark rest, pattern = mark :: rest → isSeparator mark = false
  unrooted : ¬ NamesRoot pattern

theorem isRelative_iff {pattern : Text} :
    IsRelative pattern ↔
      (Glob.compile pattern).rooted = false ∧ (Glob.compile pattern).absolute = false := by
  rw [← Bool.not_eq_true, ← Bool.not_eq_true, Glob.rooted_compile_iff, Glob.absolute_compile_iff]
  constructor
  · intro relative
    refine ⟨relative.unrooted, ?_⟩
    rintro ⟨mark, rest, hmark, hpattern⟩
    rw [relative.unmarked mark rest hpattern] at hmark
    exact Bool.false_ne_true hmark
  · rintro ⟨unrooted, unmarked⟩
    refine ⟨?_, unrooted⟩
    intro mark rest hpattern
    rw [← Bool.not_eq_true]
    exact fun hmark => unmarked ⟨mark, rest, hmark, hpattern⟩

instance : DecidablePred IsRelative := fun _ => decidable_of_iff _ isRelative_iff.symm

namespace Glob

theorem relativePath_of_unrooted (glob : Glob) {path : Text} (unrooted : ¬ NamesRoot path) :
    glob.relativePath path = path := by
  rw [relativePath, afterRoot?_eq_none unrooted]
  exact ite_self path

theorem relativePath_of_rooted {glob : Glob} (rooted : glob.rooted = true) (path : Text) :
    glob.relativePath path = path := if_pos rooted

theorem relativePath_of_afterRoot {glob : Glob} (unrooted : glob.rooted = false) {path rest : Text}
    (hafter : afterRoot? path = some rest) :
    glob.relativePath path = if glob.absolute then rest else dropSeparator rest := by
  rw [relativePath, hafter, unrooted]
  rfl

theorem relativePath_of_relative {glob : Glob} (unrooted : glob.rooted = false)
    (relative : glob.absolute = false) {mark : Char} (hmark : isSeparator mark = true)
    (path : Text) :
    glob.relativePath (rootMarker ++ mark :: path) = path := by
  have hafter : afterRoot? (rootMarker ++ mark :: path) = some (mark :: path) :=
    afterRoot?_eq_some_iff.mpr ⟨rfl, hmark⟩
  rw [relativePath_of_afterRoot unrooted hafter, relative]
  exact if_pos hmark

private theorem exists_append_dropSeparator (text : Text) :
    ∃ front, text = front ++ dropSeparator text := by
  cases text with
  | nil => exact ⟨[], rfl⟩
  | cons c rest =>
    simp only [dropSeparator]
    split_ifs
    · exact ⟨[c], rfl⟩
    · exact ⟨[], rfl⟩

theorem exists_append_seenPath (glob : Glob) (path : Text) (options : MatchOptions) :
    ∃ front, path = front ++ glob.seenPath path options := by
  unfold seenPath
  split_ifs
  · cases hrooted : glob.rooted with
    | true => exact ⟨[], (glob.relativePath_of_rooted hrooted path).symm⟩
    | false =>
      cases hafter : afterRoot? path with
      | none => exact ⟨[], by rw [relativePath, hafter, ite_self]; rfl⟩
      | some rest =>
        obtain ⟨hpath, -⟩ := afterRoot?_eq_some_iff.mp hafter
        rw [relativePath_of_afterRoot hrooted hafter]
        split_ifs
        · exact ⟨['@'], hpath⟩
        · obtain ⟨front, hrest⟩ := exists_append_dropSeparator rest
          refine ⟨'@' :: front, ?_⟩
          rw [hpath, List.cons_append, ← hrest]
  · exact ⟨[], rfl⟩

/-- What a glob answers depends on the path that it looks at and on the options that shape its steps
and the end of the path. -/
theorem accepts_congr {glob : Glob} {path other : Text} {options more : MatchOptions}
    (seen : glob.seenPath path options = glob.seenPath other more)
    (steps : glob.steps options = glob.steps more)
    (ends : options.trailingSeparator = more.trailingSeparator) :
    glob.accepts path options = glob.accepts other more := by
  rw [Bool.eq_iff_iff, accepts_eq_true_iff, accepts_eq_true_iff, seen, steps, ends]

end Glob

end PathFilter
