import PathFilter.Proofs.Filter.PatternSets
import PathFilter.Proofs.Glob.Widening

/-!
More options never lose a match, as long as the path is seen alike. The steps under some options
take all that they take under fewer options: a front that is opened takes the whole as its own
ending, and a back that is opened takes it as its own beginning, also where a separator at the end
of the pattern is dropped first. The option for the repository root is the exception: it changes the
path and not the steps.
-/

set_option autoImplicit false
set_option relaxedAutoImplicit false

namespace PathFilter

namespace MatchOptions

private theorem contains_iff {more options : MatchOptions} :
    more.contains options = true ↔
      (options.missingPattern = true → more.missingPattern = true) ∧
      (options.missingPath = true → more.missingPath = true) ∧
      (options.anywhere = true → more.anywhere = true) ∧
      (options.repoRoot = true → more.repoRoot = true) ∧
      (options.trailingSeparator = true → more.trailingSeparator = true) ∧
      (options.belowFolders = true → more.belowFolders = true) := by
  rcases options with ⟨a, b, c, d, e, f⟩
  simp only [contains, inter, zip, decide_eq_true_eq, MatchOptions.mk.injEq,
    Bool.and_eq_right_iff_imp]

theorem contains_union {more options : MatchOptions} (contained : more.contains options = true)
    (own : MatchOptions) : (own.union more).contains (own.union options) = true := by
  rw [contains_iff] at contained ⊢
  obtain ⟨hpattern, hpath, hanywhere, hroot, htrailing, hbelow⟩ := contained
  simp only [union, zip, Bool.or_eq_true]
  exact ⟨Or.imp_right hpattern, Or.imp_right hpath, Or.imp_right hanywhere, Or.imp_right hroot,
    Or.imp_right htrailing, Or.imp_right hbelow⟩

end MatchOptions

namespace Glob

open Segment (Aligned)

variable {segments : List Segment} {names : List Text} {options more : MatchOptions}

private theorem aligned_openedFront_of_imp
    (anywhere : options.anywhere = true → more.anywhere = true) (hsegments : segments ≠ [])
    (hnames : names ≠ [])
    (aligned : Aligned (openedFront options segments) names) :
    Aligned (openedFront more segments) names := by
  rw [openedFront] at aligned ⊢
  split_ifs at aligned with hanywhere
  · rw [if_pos (anywhere hanywhere)]
    exact aligned
  · split_ifs
    · exact (aligned_fromAnywhere_iff hsegments hnames).mpr
        ⟨names, ⟨hnames, List.suffix_rfl⟩, aligned⟩
    · exact aligned

/-- The separator at the end of a pattern takes an empty last component, and so does the open back
that comes in its place. -/
theorem aligned_openEnded_dropFinalSeparator {pattern : Text}
    (aligned : Aligned (openedFront options (compile pattern).segments) names) :
    Aligned
      (openEnded (openedFront options (compile (dropFinalSeparator pattern)).segments)) names := by
  cases hends : endsInSeparator pattern with
  | false =>
    rw [dropFinalSeparator_eq_self hends]
    exact aligned_openEnded_of_prefix List.prefix_rfl aligned
  | true =>
    obtain ⟨front, mark, hmark, rfl⟩ := endsInSeparator_eq_true_iff.mp hends
    rw [segments_compile_concat_separator front hmark,
      openedFront_append (segments_compile_ne_nil front)] at aligned
    obtain ⟨first, last, rfl, aligned, -⟩ := Segment.aligned_concat_name_iff.mp aligned
    rw [dropFinalSeparator_concat front hmark]
    exact aligned_openEnded_of_prefix (List.prefix_append first [last]) aligned

private theorem aligned_steps_of_contains {pattern : Text}
    (contained : more.contains options = true) (hnames : names ≠ [])
    (aligned : Aligned ((compile pattern).steps options) names) :
    Aligned ((compile pattern).steps more) names := by
  obtain ⟨-, -, anywhere, -, -, belowFolders⟩ := MatchOptions.contains_iff.mp contained
  cases hfewer : options.belowFolders with
  | false =>
    rw [steps_of_not_belowFolders hfewer] at aligned
    have hopened : Aligned (openedFront more (compile pattern).segments) names :=
      aligned_openedFront_of_imp anywhere (segments_compile_ne_nil pattern) hnames aligned
    cases hmore : more.belowFolders with
    | false =>
      rw [steps_of_not_belowFolders hmore]
      exact hopened
    | true =>
      rw [steps_of_belowFolders hmore]
      exact aligned_openEnded_dropFinalSeparator hopened
  | true =>
    have hsegments := segments_compile_ne_nil (dropFinalSeparator pattern)
    rw [steps_of_belowFolders hfewer,
      aligned_openEnded_iff (openedFront_ne_nil hsegments) hnames] at aligned
    obtain ⟨first, ⟨hne, hfirst⟩, aligned⟩ := aligned
    have hopened :
        Aligned (openedFront more (compile (dropFinalSeparator pattern)).segments) first :=
      aligned_openedFront_of_imp anywhere hsegments hne aligned
    rw [steps_of_belowFolders (belowFolders hfewer)]
    exact aligned_openEnded_of_prefix hfirst hopened

private theorem accepts_of_contains {pattern path : Text} (contained : more.contains options = true)
    (root : options.repoRoot = more.repoRoot) (h : (compile pattern).accepts path options = true) :
    (compile pattern).accepts path more = true := by
  have hseen : (compile pattern).seenPath path options = (compile pattern).seenPath path more := by
    rw [seenPath, seenPath, root]
  have htrailing : options.trailingSeparator = true → more.trailingSeparator = true :=
    (MatchOptions.contains_iff.mp contained).2.2.2.2.1
  rw [accepts_eq_true_iff, hseen] at h
  rw [accepts_eq_true_iff]
  rcases h with aligned | ⟨hends, shorter, hdrop, aligned⟩
  · left
    exact aligned_steps_of_contains contained (components_ne_nil _) aligned
  · right
    refine ⟨htrailing hends, shorter, hdrop, ?_⟩
    exact aligned_steps_of_contains contained (components_ne_nil shorter) aligned

end Glob

private theorem Rule.accepts_of_contains {rule : Rule} (compiled : rule.glob = .compile rule.text)
    {path : Text} {options more : MatchOptions} (contained : more.contains options = true)
    (root : options.repoRoot = more.repoRoot) (h : rule.accepts path options = true) :
    rule.accepts path more = true := by
  have hunited : (rule.options.union options).repoRoot = (rule.options.union more).repoRoot := by
    rw [MatchOptions.repoRoot_union, MatchOptions.repoRoot_union, root]
  rw [Rule.accepts, compiled] at h ⊢
  exact Glob.accepts_of_contains (MatchOptions.contains_union contained rule.options) hunited h

/-- A pattern matches under more options every path that it matches under fewer, and so does every
role of a filter, if both look at the path from the repository root or neither does. -/
theorem accepts_of_more_options :
    (∀ {pattern path : Text} {options more : MatchOptions}, more.contains options = true →
      options.repoRoot = more.repoRoot → patternAccepts pattern path options = true →
      patternAccepts pattern path more = true) ∧
    ∀ {filter : Filter} {role : Role} {path : Text} {options more : MatchOptions},
      filter.Reachable →
      more.contains options = true → options.repoRoot = more.repoRoot →
      Rule.anyAccepts (filter.rules role) path options = true →
      Rule.anyAccepts (filter.rules role) path more = true := by
  constructor
  · intro pattern path options more contained root h
    exact Glob.accepts_of_contains contained root h
  · intro filter role path options more reachable contained root h
    rw [Rule.anyAccepts_eq_true_iff] at h ⊢
    obtain ⟨rule, hrule, haccepts⟩ := h
    exact ⟨rule, hrule, Rule.accepts_of_contains (reachable.glob_eq hrule) contained root haccepts⟩

theorem accepts_of_more_options_rooted :
    let options : MatchOptions := { repoRoot := true, trailingSeparator := true }
    let more : MatchOptions :=
      { anywhere := true, repoRoot := true, trailingSeparator := true, belowFolders := true }
    let filter := (Filter.afterAll [.add .includes "x".toList .none,
      .addBorrowed .includes "**\\?b/".toList { missingPath := true }]).value
    let path := "@/a\\.c/cb//".toList
    (more.contains options = true ∧ options.repoRoot = more.repoRoot ∧ filter.Reachable ∧
        patternAccepts "**\\?b/".toList path options = true ∧
        Rule.anyAccepts (filter.rules .includes) path options = true) ∧
      patternAccepts "**\\?b/".toList path more = true ∧
      Rule.anyAccepts (filter.rules .includes) path more = true := by
  intro options more filter path
  have contained : more.contains options = true := by decide
  have root : options.repoRoot = more.repoRoot := rfl
  have reachable : filter.Reachable := ⟨_, rfl⟩
  have haccepts : patternAccepts "**\\?b/".toList path options = true := by decide +kernel
  have hany : Rule.anyAccepts (filter.rules .includes) path options = true := by decide +kernel
  refine ⟨⟨contained, root, reachable, haccepts, hany⟩, ?_, ?_⟩
  · exact accepts_of_more_options.1 contained root haccepts
  · exact accepts_of_more_options.2 reachable contained root hany

end PathFilter
