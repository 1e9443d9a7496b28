import PathFilter.Proofs.Glob.Separators

/-!
Parts of a path at the boundaries of its components. What stands after a separator has the last
components of the path, and what stands before one has the first; every part of the list of
components comes from such a part of the path. The last component is empty where the path is empty
or ends in a separator.
-/

set_option autoImplicit false
set_option relaxedAutoImplicit false

namespace PathFilter

/-- The path itself, or what stands after one of its separators. -/
inductive Ending (path : Text) : Text → Prop
  | whole : Ending path path
  | after {front ending : Text} {mark : Char} : isSeparator mark = true →
      path = front ++ mark :: ending → Ending path ending

/-- The path itself, or what stands before one of its separators. -/
inductive Beginning (path : Text) : Text → Prop
  | whole : Beginning path path
  | before {beginning back : Text} {mark : Char} : isSeparator mark = true →
      path = beginning ++ mark :: back → Beginning path beginning

def endsInSeparator (text : Text) : Bool := text.getLast?.any isSeparator

def dropFinalSeparator (text : Text) : Text := (dropSeparator text.reverse).reverse

theorem components_ne_nil (text : Text) : components text ≠ [] := Text.cut_ne_nil isSeparator text

theorem components_concat_separator (text : Text) {mark : Char} (hmark : isSeparator mark = true) :
    components (text ++ [mark]) = components text ++ [[]] :=
  components_append text [] hmark

private theorem components_eq_nil_component_iff {text : Text} :
    components text = [[]] ↔ text = [] := by
  constructor
  · intro h
    cases pieces_iff.mpr h with
    | last _ => rfl
    | cons _ _ rest => cases rest
  · rintro rfl
    rfl

private theorem exists_separator_of_components {text : Text} {first last : List Text}
    (h : components text = first ++ last) (hfirst : first ≠ []) (hlast : last ≠ []) :
    ∃ left mark right, isSeparator mark = true ∧ text = left ++ mark :: right ∧
      components left = first ∧ components right = last := by
  have hpieces : Pieces text (first ++ last) := pieces_iff.mpr h
  clear h
  generalize hall : first ++ last = all at hpieces
  induction hpieces generalizing first with
  | last _ =>
    have hlength := congrArg List.length hall
    have hfirst' := List.length_pos_iff.mpr hfirst
    have hlast' := List.length_pos_iff.mpr hlast
    rw [List.length_append, List.length_singleton] at hlength
    omega
  | @cons piece mark rest pieces hpiece hmark hrest ih =>
    have hone : components piece = [piece] :=
      components_of_forall fun c hc => isSeparator_eq_false_iff.mpr (hpiece c hc)
    have hmark' : isSeparator mark = true := isSeparator_eq_true_iff.mpr hmark
    obtain ⟨other, others, rfl⟩ := List.exists_cons_of_ne_nil hfirst
    obtain ⟨rfl, hothers⟩ := List.cons.inj hall
    by_cases hnil : others = []
    · subst hnil
      exact ⟨other, mark, rest, hmark', rfl, hone, (pieces_iff.mp hrest).trans hothers.symm⟩
    · obtain ⟨left, last', right, hlast', rfl, hleft, hright⟩ := ih hnil hothers
      refine ⟨other ++ mark :: left, last', right, hlast', by simp, ?_, hright⟩
      rw [components_append _ _ hmark', hone, hleft, List.singleton_append]

/-- Endings of a path have the endings of the list of components, the empty list apart. -/
theorem exists_ending_iff {path : Text} {last : List Text} :
    (∃ ending, Ending path ending ∧ components ending = last) ↔
      last ≠ [] ∧ last <:+ components path := by
  constructor
  · rintro ⟨ending, hending, rfl⟩
    refine ⟨components_ne_nil ending, ?_⟩
    cases hending with
    | whole => exact List.suffix_rfl
    | @after front _ mark hmark hpath =>
      rw [hpath, components_append _ _ hmark]
      exact List.suffix_append _ _
  · rintro ⟨hlast, first, hpath⟩
    by_cases hfirst : first = []
    · subst hfirst
      exact ⟨path, Ending.whole, hpath.symm⟩
    · obtain ⟨left, mark, right, hmark, rfl, -, hright⟩ :=
        exists_separator_of_components hpath.symm hfirst hlast
      exact ⟨right, Ending.after hmark rfl, hright⟩

theorem exists_beginning_iff {path : Text} {first : List Text} :
    (∃ beginning, Beginning path beginning ∧ components beginning = first) ↔
      first ≠ [] ∧ first <+: components path := by
  constructor
  · rintro ⟨beginning, hbeginning, rfl⟩
    refine ⟨components_ne_nil beginning, ?_⟩
    cases hbeginning with
    | whole => exact List.prefix_rfl
    | @before _ back mark hmark hpath =>
      rw [hpath, components_append _ _ hmark]
      exact List.prefix_append _ _
  · rintro ⟨hfirst, last, hpath⟩
    by_cases hlast : last = []
    · subst hlast
      rw [List.append_nil] at hpath
      exact ⟨path, Beginning.whole, hpath.symm⟩
    · obtain ⟨left, mark, right, hmark, rfl, hleft, -⟩ :=
        exists_separator_of_components hpath.symm hfirst hlast
      exact ⟨left, Beginning.before hmark rfl, hleft⟩

theorem endsInSeparator_eq_true_iff {text : Text} :
    endsInSeparator text = true ↔
      ∃ front mark, isSeparator mark = true ∧ text = front ++ [mark] := by
  rw [endsInSeparator, Option.any_eq_true]
  constructor
  · rintro ⟨mark, hlast, hmark⟩
    obtain ⟨front, rfl⟩ := List.getLast?_eq_some_iff.mp hlast
    exact ⟨front, mark, hmark, rfl⟩
  · rintro ⟨front, mark, hmark, rfl⟩
    exact ⟨mark, List.getLast?_concat, hmark⟩

theorem endsInSeparator_append {front text : Text} (h : endsInSeparator text = true) :
    endsInSeparator (front ++ text) = true := by
  obtain ⟨start, mark, hmark, rfl⟩ := endsInSeparator_eq_true_iff.mp h
  exact endsInSeparator_eq_true_iff.mpr ⟨front ++ start, mark, hmark, (List.append_assoc ..).symm⟩

theorem endsInSeparator_of_separators {run : Text} (hne : run ≠ [])
    (hrun : ∀ mark ∈ run, isSeparator mark = true) : endsInSeparator run = true := by
  obtain ⟨front, mark, rfl⟩ := (List.eq_nil_or_concat' run).resolve_left hne
  have hmark : isSeparator mark = true := hrun mark (List.mem_append_right front List.mem_cons_self)
  exact endsInSeparator_eq_true_iff.mpr ⟨front, mark, hmark, rfl⟩

theorem dropLastSeparator?_eq_none {path : Text} (h : endsInSeparator path = false) :
    dropLastSeparator? path = none := by
  rw [Option.eq_none_iff_forall_ne_some]
  intro shorter hdrop
  obtain ⟨last, hpath, hlast, -⟩ := dropLastSeparator?_eq_some_iff.mp hdrop
  rw [endsInSeparator_eq_true_iff.mpr ⟨shorter, last, hlast, hpath⟩] at h
  exact Bool.false_ne_true h.symm

theorem dropLastSeparator?_concat_separator {path : Text} (h : endsInSeparator path = false)
    {mark : Char} (hmark : isSeparator mark = true) :
    dropLastSeparator? (path ++ [mark]) = some path := by
  refine dropLastSeparator?_concat.mpr ⟨rfl, hmark, ?_⟩
  rintro start previous rfl hprevious
  rw [endsInSeparator_eq_true_iff.mpr ⟨start, previous, hprevious, rfl⟩] at h
  exact absurd h.symm Bool.false_ne_true

theorem getLast?_components_eq_nil_iff {text : Text} :
    (components text).getLast? = some [] ↔ text = [] ∨ endsInSeparator text = true := by
  constructor
  · intro h
    obtain ⟨first, hfirst⟩ := List.getLast?_eq_some_iff.mp h
    by_cases hnil : first = []
    · rw [hnil, List.nil_append, components_eq_nil_component_iff] at hfirst
      exact Or.inl hfirst
    · obtain ⟨left, mark, right, hmark, rfl, -, hright⟩ :=
        exists_separator_of_components hfirst hnil (List.cons_ne_nil _ _)
      rw [components_eq_nil_component_iff] at hright
      exact Or.inr (endsInSeparator_eq_true_iff.mpr ⟨left, mark, hmark, by rw [hright]⟩)
  · rintro (rfl | hends)
    · rfl
    · obtain ⟨front, mark, hmark, rfl⟩ := endsInSeparator_eq_true_iff.mp hends
      rw [components_concat_separator front hmark, List.getLast?_concat]

theorem Beginning.trans {path middle start : Text} (h : Beginning path middle)
    (hstart : Beginning middle start) : Beginning path start := by
  cases h with
  | whole => exact hstart
  | @before _ back mark hmark hpath =>
    cases hstart with
    | whole => exact Beginning.before hmark hpath
    | @before _ rest last hlast hmiddle =>
      have hwhole : path = start ++ last :: (rest ++ mark :: back) := by
        rw [hpath, hmiddle, List.append_assoc, List.cons_append]
      exact Beginning.before hlast hwhole

theorem beginning_of_dropLastSeparator? {path shorter : Text}
    (h : dropLastSeparator? path = some shorter) : Beginning path shorter := by
  obtain ⟨last, hpath, hlast, -⟩ := dropLastSeparator?_eq_some_iff.mp h
  exact Beginning.before hlast hpath

theorem Ending.exists_dropLastSeparator? {path shorter rest : Text}
    (hdrop : dropLastSeparator? path = some shorter) (h : Ending shorter rest) :
    ∃ ending, Ending path ending ∧ dropLastSeparator? ending = some rest := by
  obtain ⟨last, rfl, hlast, hpair⟩ := dropLastSeparator?_eq_some_iff.mp hdrop
  cases h with
  | whole => exact ⟨shorter ++ [last], Ending.whole, hdrop⟩
  | @after front _ mark hmark hshorter =>
    have hpath : shorter ++ [last] = front ++ mark :: (rest ++ [last]) := by
      rw [hshorter, List.append_assoc, List.cons_append]
    refine ⟨rest ++ [last], Ending.after hmark hpath, ?_⟩
    refine dropLastSeparator?_concat.mpr ⟨rfl, hlast, ?_⟩
    rintro start previous rfl hprevious
    exact hpair (front ++ mark :: start) previous (by rw [hshorter]; simp) hprevious

/-- The converse, but for an ending of one separator: without it nothing is left, which is an ending
of the path as well. -/
theorem Ending.of_dropLastSeparator? {path ending rest : Text} (h : Ending path ending)
    (hdrop : dropLastSeparator? ending = some rest) :
    Ending path rest ∨ ∃ shorter, dropLastSeparator? path = some shorter ∧ Ending shorter rest := by
  cases h with
  | whole => exact Or.inr ⟨rest, hdrop, Ending.whole⟩
  | @after front _ mark hmark hpath =>
    obtain ⟨last, rfl, hlast, hpair⟩ := dropLastSeparator?_eq_some_iff.mp hdrop
    rcases List.eq_nil_or_concat' rest with rfl | ⟨start, final, rfl⟩
    · have hbare : path = (front ++ [mark]) ++ last :: [] := by
        rw [hpath, List.append_assoc]
        rfl
      exact Or.inl (Ending.after hlast hbare)
    · right
      refine ⟨front ++ mark :: (start ++ [final]), ?_, Ending.after hmark rfl⟩
      refine dropLastSeparator?_eq_some_iff.mpr ⟨last, by rw [hpath]; simp, hlast, ?_⟩
      -- the character before the last one is that of the ending
      intro begin previous hbegin hprevious
      have hfinal : front ++ mark :: (start ++ [final]) = (front ++ mark :: start) ++ [final] := by
        simp
      rw [hfinal] at hbegin
      obtain ⟨-, hequal⟩ := List.append_inj' hbegin rfl
      obtain rfl : final = previous := by simpa using hequal
      exact hpair start final rfl hprevious

theorem dropFinalSeparator_concat (text : Text) {mark : Char} (hmark : isSeparator mark = true) :
    dropFinalSeparator (text ++ [mark]) = text := by
  simp [dropFinalSeparator, dropSeparator, hmark]

theorem dropFinalSeparator_eq_self {text : Text} (h : endsInSeparator text = false) :
    dropFinalSeparator text = text := by
  rcases List.eq_nil_or_concat' text with rfl | ⟨front, last, rfl⟩
  · rfl
  · have hlast : isSeparator last = false := by simpa [endsInSeparator] using h
    simp [dropFinalSeparator, dropSeparator, hlast]

end PathFilter
