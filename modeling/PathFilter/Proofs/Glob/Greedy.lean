import PathFilter.Proofs.Glob.Fits

/-!
The greedy scan decides the relation. A `View` is what a scan has before it: the rest of the
pattern, the rest of the name and, behind the last star, the pattern and the name at which it was
resumed. Every step leaves open the same question about the name (`View.Open`), and what was taken
since the last star holds no star (`View.Held`), which is why earlier stars need no second try.
-/

set_option autoImplicit false
set_option relaxedAutoImplicit false

namespace PathFilter.Wildcard

structure View where
  left : List Char
  rest : Text
  /-- The pattern behind the last star, and the name from where that star stopped taking. -/
  last : Option (List Char × Text)

/-- The first character of a pattern takes no such character; an empty pattern takes none. -/
def Blocked (left : List Char) (c : Char) : Prop :=
  ∀ p tail, left = p :: tail → p ≠ '*' ∧ ¬ TakesOne p c

private theorem Blocked.not_fits {left : List Char} {c : Char} {rest : Text}
    (blocked : Blocked left c) :
    ¬ Fits left (c :: rest) := by
  cases left with
  | nil => rw [fits_nil_iff]; exact List.cons_ne_nil c rest
  | cons p tail =>
    obtain ⟨notStar, notOne⟩ := blocked p tail rfl
    exact not_fits_of_not_takesOne notStar notOne

namespace View

/-- The question that is still open. Behind a star it is asked from where the star stopped. -/
def Open (view : View) : Prop :=
  match view.last with
  | none => Fits view.left view.rest
  | some (after, resumed) => Fits ('*' :: after) resumed

/-- What was passed since the last star took, one by one, what was read since then. -/
def Held (view : View) : Prop :=
  ∀ after resumed, view.last = some (after, resumed) →
    ∃ literal taken, after = literal ++ view.left ∧ resumed = taken ++ view.rest ∧
      List.Forall₂ TakesOne literal taken

inductive Step : View → View → Prop
  | star {left : List Char} {rest : Text} {last : Option (List Char × Text)} :
      Step ⟨'*' :: left, rest, last⟩ ⟨left, rest, some (left, rest)⟩
  | take {p c : Char} {left : List Char} {rest : Text} {last : Option (List Char × Text)} :
      TakesOne p c → Step ⟨p :: left, c :: rest, last⟩ ⟨left, rest, last⟩
  | retreat {left after : List Char} {c d : Char} {rest resumed : Text} :
      Blocked left c →
      Step ⟨left, c :: rest, some (after, d :: resumed)⟩ ⟨after, resumed, some (after, resumed)⟩

inductive Ends : View → Bool → Prop
  | finished {left : List Char} {last : Option (List Char × Text)} :
      Ends ⟨left, [], last⟩ (left.all (· == '*'))
  | blocked {left : List Char} {c : Char} {rest : Text} :
      Blocked left c → Ends ⟨left, c :: rest, none⟩ false

theorem held_resumed (after : List Char) (resumed : Text) :
    Held ⟨after, resumed, some (after, resumed)⟩ := by
  intro after' resumed' h
  cases h
  exact ⟨[], [], rfl, rfl, List.Forall₂.nil⟩

theorem Step.held {view next : View} (step : Step view next) (held : view.Held) : next.Held := by
  cases step with
  | star => exact held_resumed _ _
  | retreat => exact held_resumed _ _
  | @take p c left rest last one =>
    intro after resumed hlast
    obtain ⟨literal, taken, rfl, rfl, all⟩ := held after resumed hlast
    have grown : List.Forall₂ TakesOne (literal ++ [p]) (taken ++ [c]) :=
      List.rel_append all (List.Forall₂.cons one List.Forall₂.nil)
    exact ⟨literal ++ [p], taken ++ [c], by simp, by simp, grown⟩

/-- The greedy step: it changes the view and not the question. -/
theorem Step.open_iff {view next : View} (step : Step view next) (held : view.Held) :
    view.Open ↔ next.Open := by
  cases step with
  | @star left rest last =>
    cases last with
    | none => rfl
    | some star =>
      obtain ⟨literal, taken, hafter, hresumed, all⟩ := held star.1 star.2 rfl
      simp only [Open, hafter, hresumed]
      constructor
      · intro fits
        exact fits_star_star_iff.mp (fits_star_of_literal all fits)
      · intro fits
        exact fits_star_of_fits ((fits_literal_append all).mpr fits)
  | @take p c left rest last one =>
    cases last with
    | none => exact fits_literal_append (List.Forall₂.cons one List.Forall₂.nil)
    | some star => rfl
  | @retreat left after c d rest resumed blocked =>
    obtain ⟨literal, taken, hafter, hresumed, all⟩ := held after (d :: resumed) rfl
    have stuck : ¬ Fits after (d :: resumed) := by
      rw [hafter, hresumed, fits_literal_append all]
      exact blocked.not_fits
    simp only [Open]
    rw [fits_star_cons_iff]
    exact or_iff_right stuck

theorem Ends.open_iff {view : View} {answer : Bool} (ends : Ends view answer) (held : view.Held) :
    view.Open ↔ answer = true := by
  cases ends with
  | @finished left last =>
    cases last with
    | none => exact fits_empty_iff
    | some star =>
      obtain ⟨literal, taken, hafter, hresumed, all⟩ := held star.1 star.2 rfl
      simp only [Open, hafter, hresumed]
      rw [← fits_empty_iff]
      constructor
      · intro fits
        exact fits_star_nil_iff.mp (fits_star_of_literal all fits)
      · intro fits
        exact fits_star_of_fits ((fits_literal_append all).mpr fits)
  | blocked blocked => exact iff_of_false blocked.not_fits Bool.false_ne_true

end View

end PathFilter.Wildcard
