import PathFilter.Proofs.Filter.Sameness
import PathFilter.Proofs.Glob.Root

set_option autoImplicit false
set_option relaxedAutoImplicit false

namespace PathFilter

def MatchOptions.fromRoot (options : MatchOptions) : MatchOptions :=
  options.union { repoRoot := true }

namespace Rule

private theorem accepts_fromRoot {rule : Rule} {path way : Text} {options : MatchOptions}
    (seen : rule.glob.relativePath path = rule.glob.seenPath way (rule.options.union options)) :
    rule.accepts path options.fromRoot = rule.accepts way options := by
  apply Glob.accepts_congr
  · rw [← seen, Glob.seenPath, if_pos]
    simp [MatchOptions.fromRoot, MatchOptions.union, MatchOptions.zip]
  · simp [Glob.steps, MatchOptions.fromRoot, MatchOptions.union, MatchOptions.zip]
  · simp [MatchOptions.fromRoot, MatchOptions.union, MatchOptions.zip]

private theorem accepts_fromRoot_of_unseen {rule : Rule} {path : Text}
    (unseen : rule.glob.relativePath path = path) (options : MatchOptions) :
    rule.accepts path options.fromRoot = rule.accepts path options := by
  apply accepts_fromRoot
  rw [Glob.seenPath, unseen, ite_self]

private theorem accepts_fromRoot_of_relative {rule : Rule} (compiled : rule.Compiled)
    (relative : IsRelative rule.text) {mark : Char} (hmark : isSeparator mark = true) {path : Text}
    (unrooted : ¬ NamesRoot path) (options : MatchOptions) :
    rule.accepts (rootMarker ++ mark :: path) options.fromRoot = rule.accepts path options := by
  apply accepts_fromRoot
  rw [Glob.seenPath, rule.glob.relativePath_of_unrooted unrooted, ite_self, compiled]
  obtain ⟨hrooted, habsolute⟩ := isRelative_iff.mp relative
  exact Glob.relativePath_of_relative hrooted habsolute hmark path

end Rule

namespace Filter

/-- A filter of relative patterns decides on a path behind the root marker as on the path itself.
The option for the marker changes nothing for a path that does not name the root, nor for a filter
whose patterns all name it. -/
theorem classify_fromRoot :
    (∀ {filter : Filter} {mark : Char} {path : Text} (options : MatchOptions), filter.Reachable →
      (∀ role, ∀ rule ∈ filter.rules role, IsRelative rule.text) → isSeparator mark = true →
      ¬ NamesRoot path →
      (filter.classify (rootMarker ++ mark :: path) options.fromRoot).value =
        (filter.classify path options).value) ∧
    (∀ (filter : Filter) {path : Text} (options : MatchOptions), ¬ NamesRoot path →
      filter.classify path options.fromRoot = filter.classify path options) ∧
    ∀ {filter : Filter} (path : Text) (options : MatchOptions), filter.Reachable →
      (∀ role, ∀ rule ∈ filter.rules role, NamesRoot rule.text) →
      filter.classify path options.fromRoot = filter.classify path options := by
  refine ⟨?_, ?_, ?_⟩
  · intro filter mark path options reachable relative hmark unrooted
    -- The events name different paths, so only the verdicts are the same.
    apply value_classify_of_alike rfl
    intro role
    apply List.forall₂_same.mpr
    intro rule hrule
    refine ⟨rfl, ?_⟩
    exact Rule.accepts_fromRoot_of_relative (reachable.glob_eq hrule)
      (relative role rule hrule) hmark
      unrooted options
  · intro filter path options unrooted
    apply classify_of_alike rfl
    intro role
    apply List.forall₂_same.mpr
    intro rule _
    have unseen : rule.glob.relativePath path = path := rule.glob.relativePath_of_unrooted unrooted
    exact ⟨rfl, Rule.accepts_fromRoot_of_unseen unseen options⟩
  · intro filter path options reachable rooted
    apply classify_of_alike rfl
    intro role
    apply List.forall₂_same.mpr
    intro rule hrule
    have hrooted : rule.glob.rooted = true := by
      rw [reachable.glob_eq hrule, Glob.rooted_compile_iff]
      exact rooted role rule hrule
    have unseen : rule.glob.relativePath path = path := Glob.relativePath_of_rooted hrooted path
    exact ⟨rfl, Rule.accepts_fromRoot_of_unseen unseen options⟩

/-- An empty pattern and one with a marker that is only part of a component; a path that begins with
a separator; and patterns that name the root beside a path that does. -/
theorem classify_fromRoot_edges :
    let S :=
      (afterAll [.add .excludes "@@/*.c".toList .none, .add .includes [] { anywhere := true },
      .addBorrowed .ignores "**".toList { repoRoot := true }]).value
    let T := (afterAll [.add .includes "@/src".toList { belowFolders := true },
      .add .reserved "@".toList .none]).value
    let path := "\\@/x".toList
    let options : MatchOptions := { trailingSeparator := true }
    (S.Reachable ∧ (∀ role, ∀ rule ∈ S.rules role, IsRelative rule.text) ∧
        isSeparator '\\' = true ∧ ¬ NamesRoot path) ∧
      (T.Reachable ∧ ∀ role, ∀ rule ∈ T.rules role, NamesRoot rule.text) ∧
      (S.classify (rootMarker ++ '\\' :: path) options.fromRoot).value =
        (S.classify path options).value ∧
      T.classify path options.fromRoot = T.classify path options ∧
      T.classify "@\\src/a".toList options.fromRoot = T.classify "@\\src/a".toList options := by
  intro S T path options
  have hS : S.Reachable := ⟨_, rfl⟩
  have hT : T.Reachable := ⟨_, rfl⟩
  have relative : ∀ role, ∀ rule ∈ S.rules role, IsRelative rule.text := by
    intro role
    cases role <;> decide +kernel
  have rooted : ∀ role, ∀ rule ∈ T.rules role, NamesRoot rule.text := by
    intro role
    cases role <;> decide +kernel
  have hmark : isSeparator '\\' = true := by decide
  have unrooted : ¬ NamesRoot path := by decide
  refine ⟨⟨hS, relative, hmark, unrooted⟩, ⟨hT, rooted⟩, ?_, ?_, ?_⟩
  · exact classify_fromRoot.1 options hS relative hmark unrooted
  · exact classify_fromRoot.2.1 T options unrooted
  · exact classify_fromRoot.2.2 _ options hT rooted

end Filter

end PathFilter
