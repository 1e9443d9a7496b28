import Mathlib.Data.List.Forall2
import PathFilter.Glob.Wildcard

/-!
The relation between a pattern and the names it takes. A star in front takes any beginning of the
name and every other character exactly one; a stretch without stars therefore takes a stretch of its
own length. From this follows what makes a search without backtracking sound: once a stretch without
stars has been placed behind a star, whatever comes after it may be looked for from there on.
-/

set_option autoImplicit false
set_option relaxedAutoImplicit false

namespace PathFilter

namespace Text

variable {α : Type} {P : List α → Prop}

theorem exists_rest_nil_iff : (∃ skipped rest, [] = skipped ++ rest ∧ P rest) ↔ P [] := by
  constructor
  · rintro ⟨skipped, rest, split, holds⟩
    obtain ⟨-, rfl⟩ := List.append_eq_nil_iff.mp split.symm
    exact holds
  · intro holds
    exact ⟨[], [], rfl, holds⟩

theorem exists_rest_cons_iff {first : α} {items : List α} :
    (∃ skipped rest, first :: items = skipped ++ rest ∧ P rest) ↔
      P (first :: items) ∨ ∃ skipped rest, items = skipped ++ rest ∧ P rest := by
  constructor
  · rintro ⟨skipped, rest, split, holds⟩
    cases skipped with
    | nil => exact Or.inl (split ▸ holds)
    | cons other skipped =>
      obtain ⟨-, rfl⟩ := List.cons.inj split
      exact Or.inr ⟨skipped, rest, rfl, holds⟩
  · rintro (holds | ⟨skipped, rest, rfl, holds⟩)
    · exact ⟨[], first :: items, rfl, holds⟩
    · exact ⟨first :: skipped, rest, rfl, holds⟩

end Text

namespace Wildcard

/-- A pattern character that is no star takes a character of a name. -/
def TakesOne (p c : Char) : Prop := p ≠ '*' ∧ (p = '?' ∨ p = c)

private theorem takes_iff {p : Char} {piece : Text} :
    Takes p piece ↔ p = '*' ∨ ∃ c, piece = [c] ∧ TakesOne p c := by
  constructor
  · intro h
    cases h with
    | star piece => exact Or.inl rfl
    | one c => exact Or.inr ⟨c, rfl, by decide, Or.inl rfl⟩
    | self notStar notOne => exact Or.inr ⟨p, rfl, notStar, Or.inr rfl⟩
  · rintro (rfl | ⟨c, rfl, notStar, hc⟩)
    · exact Takes.star piece
    · by_cases hone : p = '?'
      · subst hone
        exact Takes.one c
      · obtain rfl : p = c := hc.resolve_left hone
        exact Takes.self notStar hone

theorem fits_nil_iff {name : Text} : Fits [] name ↔ name = [] := by
  constructor
  · intro h
    cases h
    rfl
  · rintro rfl
    exact Fits.nil

private theorem fits_cons_iff {p : Char} {pattern : List Char} {name : Text} :
    Fits (p :: pattern) name ↔
      ∃ piece rest, name = piece ++ rest ∧ Takes p piece ∧ Fits pattern rest := by
  constructor
  · intro h
    cases h with
    | cons takes fits => exact ⟨_, _, rfl, takes, fits⟩
  · rintro ⟨piece, rest, rfl, takes, fits⟩
    exact Fits.cons takes fits

private theorem fits_star_iff {pattern : List Char} {name : Text} :
    Fits ('*' :: pattern) name ↔ ∃ skipped rest, name = skipped ++ rest ∧ Fits pattern rest := by
  rw [fits_cons_iff]
  constructor
  · rintro ⟨piece, rest, split, -, fits⟩
    exact ⟨piece, rest, split, fits⟩
  · rintro ⟨skipped, rest, split, fits⟩
    exact ⟨skipped, rest, split, Takes.star skipped, fits⟩

private theorem fits_one_iff {p : Char} (notStar : p ≠ '*') {pattern : List Char} {name : Text} :
    Fits (p :: pattern) name ↔ ∃ c rest, name = c :: rest ∧ TakesOne p c ∧ Fits pattern rest := by
  rw [fits_cons_iff]
  constructor
  · rintro ⟨piece, rest, split, takes, fits⟩
    obtain hstar | ⟨c, rfl, one⟩ := takes_iff.mp takes
    · exact absurd hstar notStar
    · exact ⟨c, rest, split, one, fits⟩
  · rintro ⟨c, rest, split, one, fits⟩
    exact ⟨[c], rest, split, takes_iff.mpr (Or.inr ⟨c, rfl, one⟩), fits⟩

theorem fits_star_cons_iff {pattern : List Char} {c : Char} {rest : Text} :
    Fits ('*' :: pattern) (c :: rest) ↔
      Fits pattern (c :: rest) ∨ Fits ('*' :: pattern) rest := by
  rw [fits_star_iff, fits_star_iff, Text.exists_rest_cons_iff]

theorem fits_star_nil_iff {pattern : List Char} : Fits ('*' :: pattern) [] ↔ Fits pattern [] := by
  rw [fits_star_iff, Text.exists_rest_nil_iff]

theorem fits_star_of_fits {pattern : List Char} {name : Text} (fits : Fits pattern name) :
    Fits ('*' :: pattern) name := fits_star_iff.mpr ⟨[], name, rfl, fits⟩

theorem fits_star_star_iff {pattern : List Char} {name : Text} :
    Fits ('*' :: '*' :: pattern) name ↔ Fits ('*' :: pattern) name := by
  constructor
  · intro fits
    obtain ⟨skipped, rest, rfl, starred⟩ := fits_star_iff.mp fits
    obtain ⟨more, tail, rfl, plain⟩ := fits_star_iff.mp starred
    exact fits_star_iff.mpr ⟨skipped ++ more, tail, (List.append_assoc ..).symm, plain⟩
  · exact fits_star_of_fits

theorem fits_empty_iff {pattern : List Char} :
    Fits pattern [] ↔ pattern.all (· == '*') = true := by
  induction pattern with
  | nil => simp [fits_nil_iff]
  | cons p pattern ih =>
    by_cases hp : p = '*'
    · subst hp
      rw [fits_star_nil_iff, List.all_cons, beq_self_eq_true, Bool.true_and, ih]
    · rw [fits_one_iff hp]
      simp [hp]

theorem not_fits_of_not_takesOne {p c : Char} {pattern : List Char} {rest : Text}
    (notStar : p ≠ '*') (blocked : ¬ TakesOne p c) : ¬ Fits (p :: pattern) (c :: rest) := by
  rw [fits_one_iff notStar]
  rintro ⟨d, tail, split, one, -⟩
  obtain ⟨rfl, -⟩ := List.cons.inj split
  exact blocked one

theorem fits_iff_exists_pieces {pattern : List Char} {name : Text} :
    Fits pattern name ↔
      ∃ pieces : List Text, pieces.flatten = name ∧ List.Forall₂ Takes pattern pieces := by
  constructor
  · intro fits
    induction fits with
    | nil => exact ⟨[], rfl, List.Forall₂.nil⟩
    | @cons p piece pattern name takes _ ih =>
      obtain ⟨pieces, rfl, all⟩ := ih
      exact ⟨piece :: pieces, List.flatten_cons, List.Forall₂.cons takes all⟩
  · rintro ⟨pieces, rfl, all⟩
    induction all with
    | nil => exact Fits.nil
    | cons takes _ ih => exact Fits.cons takes ih

theorem fits_literal_append {literal : List Char} {taken : Text}
    (held : List.Forall₂ TakesOne literal taken) {left : List Char} {rest : Text} :
    Fits (literal ++ left) (taken ++ rest) ↔ Fits left rest := by
  induction held with
  | nil => rfl
  | @cons p c literal taken one _ ih =>
    rw [List.cons_append, List.cons_append, fits_one_iff one.1, ← ih]
    constructor
    · rintro ⟨d, tail, split, -, fits⟩
      obtain ⟨-, rfl⟩ := List.cons.inj split
      exact fits
    · intro fits
      exact ⟨c, taken ++ rest, rfl, one, fits⟩

private theorem fits_append_of_starless {literal : List Char} (starless : ∀ p ∈ literal, p ≠ '*')
    {left : List Char} {name : Text} (fits : Fits (literal ++ left) name) :
    ∃ taken rest, name = taken ++ rest ∧ taken.length = literal.length ∧ Fits left rest := by
  induction literal generalizing name with
  | nil => exact ⟨[], name, rfl, rfl, fits⟩
  | cons p literal ih =>
    have notStar : p ≠ '*' := starless p List.mem_cons_self
    obtain ⟨c, tail, rfl, -, fits⟩ := (fits_one_iff notStar).mp fits
    obtain ⟨taken, rest, rfl, hlen, fits⟩ :=
      ih (fun q hq => starless q (List.mem_cons_of_mem p hq)) fits
    exact ⟨c :: taken, rest, rfl, by simp [hlen], fits⟩

/-- The last star suffices. If a pattern that begins with a star and a stretch without stars takes a
name, and the stretch takes the name's beginning, then the star may as well have taken nothing: what
follows the stretch still occurs behind that beginning. -/
theorem fits_star_of_literal {literal : List Char} {taken : Text}
    (held : List.Forall₂ TakesOne literal taken) {left : List Char} {rest : Text}
    (fits : Fits ('*' :: (literal ++ left)) (taken ++ rest)) : Fits ('*' :: left) rest := by
  have starless : ∀ p ∈ literal, p ≠ '*' := by
    intro p hp
    obtain ⟨i, hi, rfl⟩ := List.mem_iff_getElem.mp hp
    exact (held.get hi (held.length_eq ▸ hi)).1
  obtain ⟨skipped, name, split, fits⟩ := fits_star_iff.mp fits
  obtain ⟨placed, tail, rfl, hlen, fits⟩ := fits_append_of_starless starless fits
  have hle : taken.length ≤ (skipped ++ placed).length := by
    rw [List.length_append, hlen, held.length_eq]
    omega
  rw [← List.append_assoc] at split
  obtain ⟨between, hbetween, hrest⟩ | ⟨surplus, hsurplus, htail⟩ :=
    List.append_eq_append_iff.mp split
  · exact fits_star_iff.mpr ⟨between, tail, hrest, fits⟩
  · have hnil : surplus = [] := by
      have := congrArg List.length hsurplus
      rw [List.length_append] at this
      exact List.length_eq_zero_iff.mp (by omega)
    rw [hnil, List.nil_append] at htail
    rw [← htail]
    exact fits_star_of_fits fits

end Wildcard

end PathFilter
