import PathFilter.Proofs.Glob.OpenEnds

/-!
Separators at the end of a path that do not count. A pattern whose last component takes no empty
name never takes a path that ends in a separator as it stands. So, with the option for it, such a
pattern matches a path with some separators behind it only if there is one of them and it matches
the path; and the option makes no difference to a path that does not end in a separator.
-/

set_option autoImplicit false
set_option relaxedAutoImplicit false

namespace PathFilter

private theorem namesRoot_append_iff {path run : Text}
    (hrun : ∀ mark ∈ run, isSeparator mark = true) :
    NamesRoot (path ++ run) ↔ NamesRoot path := by
  cases run with
  | nil => rw [List.append_nil]
  | cons mark run =>
    rw [NamesRoot, NamesRoot, components_append _ _ (hrun mark List.mem_cons_self),
      List.head?_append_of_ne_nil _ (components_ne_nil path)]

namespace Glob

variable {glob : Glob} {path run : Text} {options : MatchOptions}

private theorem endsInSeparator_seenPath (h : endsInSeparator path = false) :
    endsInSeparator (glob.seenPath path options) = false := by
  obtain ⟨front, hpath⟩ := glob.exists_append_seenPath path options
  rw [← Bool.not_eq_true] at h ⊢
  intro hends
  rw [hpath] at h
  exact h (endsInSeparator_append hends)

theorem accepts_iff_of_not_endsInSeparator (h : endsInSeparator path = false) :
    glob.accepts path options = true ↔
      Segment.Aligned (glob.steps options) (components (glob.seenPath path options)) := by
  rw [accepts_eq_true_iff, dropLastSeparator?_eq_none (endsInSeparator_seenPath h)]
  simp

/-- With the option for the root, a glob of a relative pattern looks at nothing but the root marker.
-/
structure AtRoot (glob : Glob) (path : Text) (options : MatchOptions) : Prop where
  repoRoot : options.repoRoot = true
  rooted : glob.rooted = false
  absolute : glob.absolute = false
  path_eq : path = rootMarker

private theorem AtRoot.seenPath_eq_nil (h : AtRoot glob path options) :
    glob.seenPath path options = [] := by
  have hafter : afterRoot? path = some [] := afterRoot?_eq_some_iff.mpr ⟨h.path_eq, rfl⟩
  rw [seenPath, if_pos h.repoRoot, relativePath_of_afterRoot h.rooted hafter, h.absolute]
  rfl

theorem AtRoot.seenPath_append (h : AtRoot glob path options)
    (hrun : ∀ mark ∈ run, isSeparator mark = true) :
    glob.seenPath (path ++ run) options = run.tail := by
  cases run with
  | nil =>
    rw [List.append_nil]
    exact h.seenPath_eq_nil
  | cons mark run =>
    rw [seenPath, if_pos h.repoRoot, h.path_eq]
    exact relativePath_of_relative h.rooted h.absolute (hrun mark List.mem_cons_self) run

theorem seenPath_append_of_not_atRoot (h : ¬ AtRoot glob path options)
    (hrun : ∀ mark ∈ run, isSeparator mark = true) :
    glob.seenPath (path ++ run) options = glob.seenPath path options ++ run := by
  unfold seenPath
  split_ifs with hroot
  · cases hrooted : glob.rooted with
    | true => rw [relativePath_of_rooted hrooted, relativePath_of_rooted hrooted]
    | false =>
      by_cases hnames : NamesRoot path
      · obtain ⟨rest, hafter⟩ := namesRoot_iff.mp hnames
        obtain ⟨more, hmore⟩ := namesRoot_iff.mp ((namesRoot_append_iff hrun).mpr hnames)
        obtain ⟨rfl, hboundary⟩ := afterRoot?_eq_some_iff.mp hafter
        obtain rfl : rest ++ run = more := List.cons.inj (afterRoot?_eq_some_iff.mp hmore).1 |>.2
        rw [relativePath_of_afterRoot hrooted hafter, relativePath_of_afterRoot hrooted hmore]
        cases habsolute : glob.absolute with
        | true => rfl
        | false =>
          cases rest with
          | nil => exact absurd ⟨hroot, hrooted, habsolute, rfl⟩ h
          | cons c rest =>
            have hc : isSeparator c = true := hboundary
            simp [dropSeparator, hc]
      · rw [glob.relativePath_of_unrooted hnames,
          glob.relativePath_of_unrooted (mt (namesRoot_append_iff hrun).mp hnames)]
  · rfl

theorem seenPath_append (glob : Glob) (path : Text) (options : MatchOptions)
    (hrun : ∀ mark ∈ run, isSeparator mark = true) :
    glob.seenPath (path ++ run) options = glob.seenPath path options ++ run ∨
      glob.seenPath path options = [] ∧ glob.seenPath (path ++ run) options = run.tail := by
  by_cases hroot : AtRoot glob path options
  · exact Or.inr ⟨hroot.seenPath_eq_nil, hroot.seenPath_append hrun⟩
  · exact Or.inl (seenPath_append_of_not_atRoot hroot hrun)

private theorem getLast?_steps {pattern part : Text}
    (hpart : (components pattern).getLast? = some part) (hdepth : part ≠ ['*', '*'])
    (h : options.belowFolders = false) :
    ((compile pattern).steps options).getLast? = some (.name part) := by
  rw [steps_of_not_belowFolders h, getLast?_openedFront (segments_compile_ne_nil pattern),
    segments_compile, List.getLast?_map, hpart, Option.map_some,
    segmentOf_eq_name_iff.mpr ⟨hdepth, rfl⟩]

end Glob

namespace Segment

/-- The segments take no components of which the last one is empty. -/
def NeedsLastName (segments : List Segment) : Prop :=
  ∀ names, Aligned segments names → names.getLast? ≠ some []

variable {segments : List Segment} {run : Text}

private theorem needsLastName_of_getLast? {part : Text} {c : Char}
    (hlast : segments.getLast? = some (.name part)) (hc : c ∈ part) (hstar : c ≠ '*') :
    NeedsLastName segments := by
  intro names aligned hempty
  obtain ⟨front, rfl⟩ := List.getLast?_eq_some_iff.mp hlast
  obtain ⟨first, last, rfl, -, -, fits⟩ := aligned_concat_name_iff.mp aligned
  obtain rfl : last = [] := by simpa using hempty
  rw [Wildcard.fits_empty_iff, List.all_eq_true] at fits
  exact hstar (beq_iff_eq.mp (fits c hc))

private theorem NeedsLastName.not_aligned (needs : NeedsLastName segments) {text : Text}
    (h : text = [] ∨ endsInSeparator text = true) : ¬ Aligned segments (components text) :=
  fun aligned => needs _ aligned (getLast?_components_eq_nil_iff.mpr h)

private theorem NeedsLastName.not_takes_separators (needs : NeedsLastName segments)
    (hrun : ∀ mark ∈ run, isSeparator mark = true) :
    ¬ (Aligned segments (components run) ∨
      ∃ shorter, dropLastSeparator? run = some shorter ∧
        Aligned segments (components shorter)) := by
  have hnone : ∀ marks : Text, (∀ mark ∈ marks, isSeparator mark = true) →
      ¬ Aligned segments (components marks) := by
    intro marks hmarks
    by_cases hnil : marks = []
    · exact needs.not_aligned (Or.inl hnil)
    · exact needs.not_aligned (Or.inr (endsInSeparator_of_separators hnil hmarks))
  rintro (aligned | ⟨shorter, hdrop, aligned⟩)
  · exact hnone run hrun aligned
  · obtain ⟨mark, rfl, -, -⟩ := dropLastSeparator?_eq_some_iff.mp hdrop
    exact hnone shorter (fun mark hmark => hrun mark (List.mem_append_left _ hmark)) aligned

/-- A text with separators behind it is taken, as it is or without the last of them, only if there
is one of them and the text is taken. -/
theorem NeedsLastName.takes_append_iff (needs : NeedsLastName segments) {text : Text}
    (htext : endsInSeparator text = false) (hne : run ≠ [])
    (hrun : ∀ mark ∈ run, isSeparator mark = true) :
    (Aligned segments (components (text ++ run)) ∨
      ∃ shorter, dropLastSeparator? (text ++ run) = some shorter ∧
        Aligned segments (components shorter)) ↔
      run.length = 1 ∧ Aligned segments (components text) := by
  have hnone : ∀ marks : Text, marks ≠ [] → (∀ mark ∈ marks, isSeparator mark = true) →
      ¬ Aligned segments (components (text ++ marks)) := fun marks hmarks hall =>
    needs.not_aligned (Or.inr (endsInSeparator_append (endsInSeparator_of_separators hmarks hall)))
  rw [or_iff_right (hnone run hne hrun)]
  obtain ⟨front, mark, rfl⟩ := (List.eq_nil_or_concat' run).resolve_left hne
  by_cases hfront : front = []
  · subst hfront
    have hmark : isSeparator mark = true := hrun mark List.mem_cons_self
    simp [dropLastSeparator?_concat_separator htext hmark]
  · have hlength : (front ++ [mark]).length ≠ 1 := by simpa using hfront
    refine iff_of_false ?_ fun h => hlength h.1
    rintro ⟨shorter, hdrop, aligned⟩
    rw [← List.append_assoc] at hdrop
    obtain ⟨rfl, -, -⟩ := dropLastSeparator?_concat.mp hdrop
    exact hnone front hfront (fun mark hmark => hrun mark (List.mem_append_left _ hmark)) aligned

end Segment

/-- With the option for it, one separator at the end of a path does not count, and no more than one:
this for every pattern whose last component has a character other than a star, so that it takes no
empty name by itself. Where a path does not end in a separator, the option changes nothing, whatever
the pattern. -/
theorem patternAccepts_trailingSeparator :
    (∀ {pattern path run part : Text} {c : Char} {options : MatchOptions},
      (components pattern).getLast? = some part → part ≠ ['*', '*'] → c ∈ part → c ≠ '*' →
      options.belowFolders = false → endsInSeparator path = false →
      run ≠ [] → (∀ mark ∈ run, isSeparator mark = true) →
      (patternAccepts pattern (path ++ run) (options.union { trailingSeparator := true }) = true ↔
        run.length = 1 ∧ patternAccepts pattern path options = true)) ∧
    ∀ {path : Text} (pattern : Text) (options : MatchOptions), endsInSeparator path = false →
      patternAccepts pattern path (options.union { trailingSeparator := true }) =
        patternAccepts pattern path options := by
  constructor
  · intro pattern path run part c options hpart hdepth hc hstar hbelow hpath hrun hmarks
    have needs :=
      Segment.needsLastName_of_getLast? (Glob.getLast?_steps hpart hdepth hbelow) hc hstar
    rw [patternAccepts, patternAccepts, Glob.accepts_iff_of_not_endsInSeparator hpath,
      Glob.accepts_eq_true_iff, Glob.steps_union_trailingSeparator,
      Glob.seenPath_union_trailingSeparator]
    have hon : (options.union { trailingSeparator := true }).trailingSeparator = true := by simp
    rw [hon]
    simp only [true_and]
    rcases (Glob.compile pattern).seenPath_append path options hmarks with hseen | ⟨hnone, hseen⟩
    · rw [hseen]
      exact needs.takes_append_iff (Glob.endsInSeparator_seenPath hpath) hrun hmarks
    · -- the path is the root marker alone, and of both paths the pattern sees separators at most
      rw [hseen, hnone]
      refine iff_of_false (needs.not_takes_separators ?_) fun h =>
        needs.not_aligned (Or.inl rfl) h.2
      exact fun mark hmark => hmarks mark (List.mem_of_mem_tail hmark)
  · intro path pattern options hpath
    rw [Bool.eq_iff_iff, patternAccepts, patternAccepts,
      Glob.accepts_iff_of_not_endsInSeparator hpath,
      Glob.accepts_iff_of_not_endsInSeparator hpath, Glob.steps_union_trailingSeparator,
      Glob.seenPath_union_trailingSeparator]

theorem patternAccepts_trailingSeparator_rooted :
    let options : MatchOptions := { anywhere := true, repoRoot := true }
    let pattern := "x/?b*".toList
    let path := "@\\a/x/cb".toList
    ((components pattern).getLast? = some "?b*".toList ∧ "?b*".toList ≠ ['*', '*'] ∧
        'b' ∈ "?b*".toList ∧ 'b' ≠ '*' ∧ options.belowFolders = false ∧
          endsInSeparator path = false ∧
        ∀ mark ∈ "\\/".toList, isSeparator mark = true) ∧
      patternAccepts pattern (path ++ ['\\']) (options.union { trailingSeparator := true }) = true ∧
      patternAccepts pattern (path ++ "\\/".toList) (options.union { trailingSeparator := true }) =
        false ∧
      patternAccepts pattern path (options.union { trailingSeparator := true }) =
        patternAccepts pattern path options := by
  intro options pattern path
  have hpart : (components pattern).getLast? = some "?b*".toList := by decide
  have hdepth : "?b*".toList ≠ ['*', '*'] := by decide
  have hc : 'b' ∈ "?b*".toList := by decide
  have hpath : endsInSeparator path = false := by decide
  have hmarks : ∀ mark ∈ "\\/".toList, isSeparator mark = true := List.all_eq_true.mp (by decide)
  have haccepts : patternAccepts pattern path options = true := by decide +kernel
  refine ⟨⟨hpart, hdepth, hc, by decide, rfl, hpath, hmarks⟩, ?_, ?_, ?_⟩
  · have hmark : ∀ mark ∈ ['\\'], isSeparator mark = true := List.all_eq_true.mp (by decide)
    exact (patternAccepts_trailingSeparator.1 hpart hdepth hc (by decide) rfl hpath (by decide)
      hmark).mpr ⟨rfl, haccepts⟩
  · rw [Bool.eq_false_iff, ne_eq, patternAccepts_trailingSeparator.1 hpart hdepth hc (by decide) rfl
      hpath (by decide) hmarks]
    exact fun h => absurd h.1 (by decide)
  · exact patternAccepts_trailingSeparator.2 pattern options hpath

-- A last component of stars alone takes the empty name behind the separator.
example : patternAccepts "a/*".toList "a/".toList { trailingSeparator := true } = true ∧
    patternAccepts "a/*".toList "a".toList .none = false := by decide +kernel

end PathFilter
