import PathFilter.Glob.Alignment
import PathFilter.Proofs.Glob.ScanStates

/-!
The table and the plain search agree, and both decide whether the components can be divided among
the segments. A row is right from an index on if its entries there are the answers of the plain
search (`RightFrom`); filling a row needs a right row below and nothing of what it overwrites.
-/

set_option autoImplicit false
set_option relaxedAutoImplicit false

namespace PathFilter.Segment

private theorem nameAccepts_eq_true_iff {pattern : List Char} {component : Text} :
    nameAccepts pattern component = true ↔ NameFits pattern component := by
  unfold nameAccepts NameFits
  rw [← Wildcard.accepts_eq_true_iff]
  by_cases hidden : hides pattern component = true
  · have hdot : component.head? = some '.' ∧
        (pattern.head? = some '*' ∨ pattern.head? = some '?') := by
      simpa [hides] using hidden
    rw [if_pos hidden]
    exact iff_of_false Bool.false_ne_true fun h => h.1 hdot
  · have hplain : ¬ (component.head? = some '.' ∧
        (pattern.head? = some '*' ∨ pattern.head? = some '?')) := by
      simpa [hides] using hidden
    rw [if_neg hidden]
    exact (and_iff_right hplain).symm

theorem aligned_nil_iff {components : List Text} : Aligned [] components ↔ components = [] := by
  constructor
  · intro h
    cases h
    rfl
  · rintro rfl
    exact Aligned.nil

theorem aligned_anyDepth_iff {segments : List Segment} {components : List Text} :
    Aligned (.anyDepth :: segments) components ↔
      ∃ run rest, components = run ++ rest ∧ Aligned segments rest := by
  constructor
  · intro h
    cases h with
    | anyDepth run aligned => exact ⟨run, _, rfl, aligned⟩
  · rintro ⟨run, rest, rfl, aligned⟩
    exact Aligned.anyDepth run aligned

theorem aligned_name_iff {pattern : List Char} {segments : List Segment}
    {components : List Text} :
    Aligned (.name pattern :: segments) components ↔
      ∃ component rest, components = component :: rest ∧ NameFits pattern component ∧
        Aligned segments rest := by
  constructor
  · intro h
    cases h with
    | name fits aligned => exact ⟨_, _, rfl, fits, aligned⟩
  · rintro ⟨component, rest, rfl, fits, aligned⟩
    exact Aligned.name fits aligned

private theorem aligned_anyDepth_cons_iff {segments : List Segment} {component : Text}
    {rest : List Text} :
    Aligned (.anyDepth :: segments) (component :: rest) ↔
      Aligned segments (component :: rest) ∨ Aligned (.anyDepth :: segments) rest := by
  rw [aligned_anyDepth_iff, aligned_anyDepth_iff, Text.exists_rest_cons_iff]

private theorem aligned_anyDepth_nil_iff {segments : List Segment} :
    Aligned (.anyDepth :: segments) [] ↔ Aligned segments [] := by
  rw [aligned_anyDepth_iff, Text.exists_rest_nil_iff]

theorem aligns_eq_true_iff {segments : List Segment} {components : List Text} :
    aligns segments components = true ↔ Aligned segments components := by
  fun_induction aligns segments components with
  | case1 components => rw [aligned_nil_iff, List.isEmpty_iff]
  | case2 segments ih => rw [ih, aligned_anyDepth_nil_iff]
  | case3 segments component rest ihStop ihTake =>
    rw [Bool.or_eq_true, ihStop, ihTake, aligned_anyDepth_cons_iff]
  | case4 pattern segments =>
    rw [aligned_name_iff]
    simp
  | case5 pattern segments component rest ih =>
    rw [Bool.and_eq_true, nameAccepts_eq_true_iff, ih, aligned_name_iff]
    constructor
    · rintro ⟨fits, aligned⟩
      exact ⟨component, rest, rfl, fits, aligned⟩
    · rintro ⟨first, tail, split, fits, aligned⟩
      obtain ⟨rfl, rfl⟩ := List.cons.inj split
      exact ⟨fits, aligned⟩

/-- From an index on, the entries of a row answer for the components from there on. -/
structure RightFrom (segments : List Segment) (components : List Text) (start : Nat) (row : Row) :
    Prop where
  size : row.size = components.length + 1
  getD : ∀ j, start ≤ j → j ≤ components.length →
    row.getD j false = aligns segments (components.drop j)

private theorem getD_setIfInBounds {row : Row} {i : Nat} (hi : i < row.size) (j : Nat)
    (value : Bool) :
    (row.setIfInBounds i value).getD j false = if i = j then value else row.getD j false := by
  simp only [Array.getD_eq_getD_getElem?, Array.getElem?_setIfInBounds]
  split_ifs <;> rfl

namespace RightFrom

variable {segment : Segment} {segments : List Segment} {components : List Text} {next row : Row}

private theorem extend {j : Nat} {value : Bool} (h : RightFrom segments components (j + 1) row)
    (hj : j ≤ components.length) (hvalue : value = aligns segments (components.drop j)) :
    RightFrom segments components j (row.setIfInBounds j value) where
  size := by rw [Array.size_setIfInBounds, h.size]
  getD := by
    intro i hstart hend
    rw [getD_setIfInBounds (by rw [h.size]; omega)]
    split_ifs with heq
    · rw [hvalue, heq]
    · exact h.getD i (by omega) hend

theorem entry_eq {j : Nat} (hnext : RightFrom segments components 0 next)
    (hrow : RightFrom (segment :: segments) components (j + 1) row) (hj : j < components.length) :
    entry segment components.toArray next row j =
      aligns (segment :: segments) (components.drop j) := by
  have hdrop : components.drop j = components[j] :: components.drop (j + 1) :=
    List.drop_eq_getElem_cons hj
  cases segment with
  | anyDepth =>
    rw [hdrop, aligns, ← hdrop, ← hnext.getD j (Nat.zero_le j) (Nat.le_of_lt hj),
      ← hrow.getD (j + 1) (Nat.le_refl _) hj]
    rfl
  | name pattern =>
    have hget : components.toArray.getD j [] = components[j] := by
      simp [Array.getD_eq_getD_getElem?, hj]
    rw [hdrop, aligns, ← hnext.getD (j + 1) (Nat.zero_le _) hj, Bool.and_comm]
    simp only [entry, hget]

private theorem lastEntry_eq (hnext : RightFrom segments components 0 next) :
    lastEntry segment next components.length =
      aligns (segment :: segments) (components.drop components.length) := by
  have hlast := hnext.getD components.length (Nat.zero_le _) (Nat.le_refl _)
  rw [List.drop_length] at hlast ⊢
  cases segment with
  | anyDepth =>
    rw [aligns, ← hlast]
    rfl
  | name pattern =>
    rw [aligns]
    rfl

theorem fillBelow (hnext : RightFrom segments components 0 next) {j : Nat}
    (hrow : RightFrom (segment :: segments) components j row) (hj : j ≤ components.length) :
    RightFrom (segment :: segments) components 0
      (fillBelow segment components.toArray next j row) := by
  induction j generalizing row with
  | zero => exact hrow
  | succ j ih =>
    have hentry := entry_eq hnext hrow hj
    exact ih (hrow.extend (Nat.le_of_succ_le hj) hentry) (Nat.le_of_succ_le hj)

/-- Whatever a row held before, filling makes it right. -/
theorem fill (hnext : RightFrom segments components 0 next)
    (hsize : row.size = components.length + 1) :
    RightFrom (segment :: segments) components 0
      (fill components.toArray segment next row) := by
  have hnone : RightFrom (segment :: segments) components (components.length + 1) row :=
    ⟨hsize, fun j hstart hend => absurd hend (by omega)⟩
  exact fillBelow hnext (hnone.extend (Nat.le_refl _) (lastEntry_eq hnext)) (Nat.le_refl _)

theorem start (components : List Text) :
    RightFrom [] components 0 (Rows.start components.length).next where
  size := by simp [Rows.start]
  getD := by
    intro j _ hj
    rw [Rows.start, getD_setIfInBounds (by simp), aligns]
    split_ifs with heq
    · subst heq
      simp
    · have hne : (components.drop j).isEmpty = false := by
        rw [List.isEmpty_eq_false_iff, ne_eq, List.drop_eq_nil_iff]
        omega
      have hlt : j < components.length + 1 := Nat.lt_succ_of_le hj
      rw [hne]
      simp [Array.getD_eq_getD_getElem?, hlt]

end RightFrom

/-- After the rounds for some segments the last row is right for them. -/
theorem rightFrom_rounds (segments : List Segment) (components : List Text) :
    RightFrom segments components 0
        (segments.foldr (Rows.round components.toArray) (Rows.start components.length)).next ∧
      (segments.foldr (Rows.round components.toArray) (Rows.start components.length)).spare.size =
        components.length + 1 := by
  induction segments with
  | nil => exact ⟨RightFrom.start components, by simp [Rows.start]⟩
  | cons segment segments ih =>
    obtain ⟨hnext, hspare⟩ := ih
    exact ⟨hnext.fill hspare, hnext.size⟩

theorem tableAligns_eq_aligns (segments : List Segment) (components : List Text) :
    tableAligns segments components = aligns segments components :=
  (rightFrom_rounds segments components).1.getD 0 (Nat.le_refl 0) (Nat.zero_le _)

theorem tableAligns_eq_true_iff {segments : List Segment} {components : List Text} :
    tableAligns segments components = true ↔ Aligned segments components := by
  rw [tableAligns_eq_aligns, aligns_eq_true_iff]

end PathFilter.Segment
