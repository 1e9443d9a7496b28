/-!
Text as a list of characters, with the few cuts that patterns, settings and path lists need. A cut
keeps empty pieces, so joining the pieces gives the text back; trimming is by a class of characters.
-/

set_option autoImplicit false
set_option relaxedAutoImplicit false

namespace PathFilter

abbrev Text := List Char

namespace Text

def consFirst {α : Type} (a : α) : List (List α) → List (List α)
  | [] => [[a]]
  | piece :: rest => (a :: piece) :: rest

/-- The pieces between the elements that `isCut` selects, empty pieces included. -/
def cut {α : Type} (isCut : α → Bool) : List α → List (List α)
  | [] => [[]]
  | a :: rest => if isCut a then [] :: cut isCut rest else consFirst a (cut isCut rest)

def dropEndWhile {α : Type} (drop : α → Bool) (text : List α) : List α :=
  (text.reverse.dropWhile drop).reverse

/-- The parts before and after the first occurrence of a mark, if it occurs. -/
def splitFirst? {α : Type} [DecidableEq α] (mark : α) : List α → Option (List α × List α)
  | [] => none
  | c :: rest =>
    if c = mark then some ([], rest)
    else (splitFirst? mark rest).map fun parts => (c :: parts.1, parts.2)

/-- The rest of a text after a given beginning, if it begins so. -/
def after? : Text → Text → Option Text
  | [], text => some text
  | _ :: _, [] => none
  | b :: beginning, c :: text => if b = c then after? beginning text else none

/-- Lower case of the letters A to Z; every other character stays. -/
def lowerAscii (text : Text) : Text := text.map Char.toLower

def decimal (n : Nat) : Text := Nat.toDigits 10 n

theorem cut_ne_nil {α : Type} (isCut : α → Bool) (text : List α) : cut isCut text ≠ [] := by
  cases text with
  | nil => simp [cut]
  | cons a rest =>
    simp only [cut]
    split
    · simp
    · cases cut isCut rest <;> simp [consFirst]

theorem cut_append {α : Type} (isCut : α → Bool) (left right : List α) (mark : α)
    (hm : isCut mark = true) :
    cut isCut (left ++ mark :: right) = cut isCut left ++ cut isCut right := by
  induction left with
  | nil => simp [cut, hm]
  | cons a rest ih =>
    simp only [List.cons_append, cut, ih]
    split
    · simp
    · cases h : cut isCut rest with
      | nil => exact absurd h (cut_ne_nil isCut rest)
      | cons piece pieces => simp [consFirst]

theorem cut_of_forall {α : Type} (isCut : α → Bool) {text : List α}
    (h : ∀ a ∈ text, isCut a = false) : cut isCut text = [text] := by
  induction text with
  | nil => rfl
  | cons a rest ih =>
    have ha : isCut a = false := h a List.mem_cons_self
    have hrest : ∀ b ∈ rest, isCut b = false := fun b hb => h b (List.mem_cons_of_mem a hb)
    simp [cut, ha, ih hrest, consFirst]

/-- The pieces have no element to cut at. -/
theorem eq_false_of_mem_cut {α : Type} {isCut : α → Bool} {text piece : List α}
    (h : piece ∈ cut isCut text) : ∀ a ∈ piece, isCut a = false := by
  induction text generalizing piece with
  | nil =>
    obtain rfl : piece = [] := List.mem_singleton.mp h
    exact fun a ha => absurd ha List.not_mem_nil
  | cons b rest ih =>
    rw [cut] at h
    split at h
    next hb =>
      rcases List.mem_cons.mp h with rfl | hrest
      · exact fun a ha => absurd ha List.not_mem_nil
      · exact ih hrest
    next hb =>
      obtain ⟨first, others, hcut⟩ := List.exists_cons_of_ne_nil (cut_ne_nil isCut rest)
      rw [hcut] at h ih
      rcases List.mem_cons.mp h with rfl | hothers
      · intro a ha
        rcases List.mem_cons.mp ha with rfl | ha
        · exact Bool.eq_false_iff.mpr hb
        · exact ih List.mem_cons_self a ha
      · exact ih (List.mem_cons_of_mem first hothers)

theorem after?_eq_some_iff {beginning text rest : Text} :
    after? beginning text = some rest ↔ text = beginning ++ rest := by
  induction beginning generalizing text with
  | nil => simp [after?]
  | cons b beginning ih =>
    cases text with
    | nil => simp [after?]
    | cons c text =>
      rw [after?, List.cons_append, List.cons.injEq]
      by_cases hc : b = c
      · simp [hc, ih]
      · simp [hc, Ne.symm hc]

theorem after?_append (beginning rest : Text) : after? beginning (beginning ++ rest) = some rest :=
  after?_eq_some_iff.mpr rfl

theorem splitFirst?_eq_some {α : Type} [DecidableEq α] {mark : α} {text before rest : List α}
    (h : splitFirst? mark text = some (before, rest)) :
    text = before ++ mark :: rest ∧ mark ∉ before := by
  induction text generalizing before with
  | nil => simp [splitFirst?] at h
  | cons c text ih =>
    simp only [splitFirst?] at h
    split at h
    next hc =>
      simp only [Option.some.injEq, Prod.mk.injEq] at h
      obtain ⟨rfl, rfl⟩ := h
      simp [hc]
    next hc =>
      obtain ⟨parts, hparts, heq⟩ := Option.map_eq_some_iff.1 h
      simp only [Prod.mk.injEq] at heq
      obtain ⟨rfl, rfl⟩ := heq
      obtain ⟨htext, hmem⟩ := ih hparts
      refine ⟨by simp [htext], ?_⟩
      simp only [List.mem_cons, not_or]
      exact ⟨fun he => hc he.symm, hmem⟩

theorem splitFirst?_append {α : Type} [DecidableEq α] {mark : α} {before : List α}
    (h : mark ∉ before) (rest : List α) :
    splitFirst? mark (before ++ mark :: rest) = some (before, rest) := by
  induction before with
  | nil => simp [splitFirst?]
  | cons c before ih =>
    rw [List.mem_cons, not_or] at h
    simp [splitFirst?, Ne.symm h.1, ih h.2]

theorem append_cons_inj_of_first {α : Type} [DecidableEq α] {mark : α}
    {before other rest more : List α} (h : mark ∉ before) (h' : mark ∉ other)
    (heq : before ++ mark :: rest = other ++ mark :: more) : before = other ∧ rest = more := by
  have hsplit := splitFirst?_append h rest
  rw [heq, splitFirst?_append h' more, Option.some.injEq, Prod.mk.injEq] at hsplit
  exact ⟨hsplit.1.symm, hsplit.2.symm⟩

theorem splitFirst?_eq_none {α : Type} [DecidableEq α] {mark : α} {text : List α} :
    splitFirst? mark text = none ↔ mark ∉ text := by
  induction text with
  | nil => simp [splitFirst?]
  | cons c text ih =>
    simp only [splitFirst?]
    split
    next hc => simp [hc]
    next hc => simp [ih, Ne.symm hc]

end Text

end PathFilter
