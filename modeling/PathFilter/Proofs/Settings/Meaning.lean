import Mathlib.Tactic.SplitIfs
import PathFilter.Proofs.Settings.Grammar

set_option autoImplicit false
set_option relaxedAutoImplicit false

namespace PathFilter

namespace SettingsLine

def name? (line : Text) : Option Text :=
  match Text.trim line with
  | '[' :: rest => (Text.splitFirst? ']' rest).map fun parts => Text.trim parts.1
  | _ => none

def assignment? (line : Text) : Option (Text × Text) :=
  let content := Text.trim line
  if Text.isComment content || content.head? = some '[' then none
  else (Text.splitFirst? '=' content).map fun parts => (Text.trim parts.1, Text.trim parts.2)

def entryOf? (line : Text) : Option Entry :=
  (assignment? line).map fun pair => ⟨Text.lowerAscii pair.1, pair.2⟩

def beforeHeader (lines : List Text) : List Text := lines.takeWhile fun line => (name? line).isNone

variable {line name rest key value : Text}

theorem name?_eq_some_iff : name? line = some name ↔ Names line name := by
  rw [name?]
  constructor
  · intro h
    split at h
    next rest heq =>
      obtain ⟨parts, hparts, rfl⟩ := Option.map_eq_some_iff.mp h
      obtain ⟨hrest, hmem⟩ := Text.splitFirst?_eq_some hparts
      exact ⟨parts.1, parts.2, ⟨by rw [heq, hrest], hmem⟩, rfl⟩
    next => exact absurd h.symm (Option.some_ne_none name)
  · rintro ⟨inside, rest, shape, rfl⟩
    rw [shape.content_eq]
    simp only [Text.splitFirst?_append shape.not_mem, Option.map_some]

theorem name?_eq_none (head_ne : (Text.trim line).head? ≠ some '[') : name? line = none := by
  rw [name?]
  split
  next rest heq => exact absurd (by rw [heq]; rfl) head_ne
  next => rfl

theorem Remark.head?_ne {content : Text} (silent : Remark content) : content.head? ≠ some '[' := by
  rcases silent with rfl | h | h
  · exact Option.some_ne_none '[' ∘ Eq.symm
  · rw [h]; decide
  · rw [h]; decide

theorem assignment?_of_remark (silent : Remark (Text.trim line)) : assignment? line = none := by
  simp [assignment?, isComment_eq_true_iff.mpr silent]

theorem assignment?_of_assignment (speaks : ¬ Remark (Text.trim line))
    (shape : Assignment (Text.trim line) key value) :
    assignment? line = some (Text.trim key, Text.trim value) := by
  have hcomment : Text.isComment (Text.trim line) = false := by
    rw [← Bool.not_eq_true, isComment_eq_true_iff]
    exact speaks
  have hsplit : Text.splitFirst? '=' (Text.trim line) = some (key, value) := by
    rw [shape.content_eq, Text.splitFirst?_append shape.not_mem]
  simp [assignment?, hcomment, shape.head_ne, hsplit]

theorem assignment?_eq_some_iff {pair : Text × Text} :
    assignment? line = some pair ↔ ∃ key value, ¬ Remark (Text.trim line) ∧
      Assignment (Text.trim line) key value ∧ pair = (Text.trim key, Text.trim value) := by
  constructor
  · intro h
    simp only [assignment?] at h
    split_ifs at h with hsilent
    rw [Bool.or_eq_true, isComment_eq_true_iff, decide_eq_true_eq, not_or] at hsilent
    obtain ⟨parts, hparts, rfl⟩ := Option.map_eq_some_iff.mp h
    obtain ⟨hcontent, hmem⟩ := Text.splitFirst?_eq_some hparts
    exact ⟨parts.1, parts.2, hsilent.1, ⟨hcontent, hmem, hsilent.2⟩, rfl⟩
  · rintro ⟨key, value, speaks, shape, rfl⟩
    exact assignment?_of_assignment speaks shape

theorem beforeHeader_cons_of_header (h : name? line = some name) (lines : List Text) :
    beforeHeader (line :: lines) = [] := by
  simp [beforeHeader, h]

theorem beforeHeader_cons_of_none (h : name? line = none) (lines : List Text) :
    beforeHeader (line :: lines) = line :: beforeHeader lines := by
  simp [beforeHeader, h]

end SettingsLine

namespace Settings

open SettingsLine

def leading (lines : List Text) : List Entry := (beforeHeader lines).filterMap entryOf?

/-- The sections of the headers, each with the entries up to the next one. -/
def parts : List Text → List Section
  | [] => []
  | line :: rest =>
    match name? line with
    | some name => ⟨name, leading rest⟩ :: parts rest
    | none => parts rest

/-- The settings that some lines mean. -/
def ofLines (lines : List Text) : Settings := ⟨leading lines, parts lines⟩

variable {line name : Text} {entry : Entry}

theorem ofLines_cons_of_header (h : name? line = some name) (lines : List Text) :
    ofLines (line :: lines) =
      ⟨[], ⟨name, (ofLines lines).shared⟩ :: (ofLines lines).sections⟩ := by
  rw [ofLines, leading, beforeHeader_cons_of_header h, parts, h]
  rfl

theorem ofLines_cons_of_none (h : name? line = none) (lines : List Text) :
    ofLines (line :: lines) =
      ⟨(entryOf? line).toList ++ (ofLines lines).shared, (ofLines lines).sections⟩ := by
  rw [ofLines, leading, beforeHeader_cons_of_none h, parts, h]
  cases hentry : entryOf? line <;> simp [hentry, ofLines, leading]

theorem repositories_ofLines (lines : List Text) :
    (ofLines lines).repositories = lines.filterMap name? := by
  induction lines with
  | nil => rfl
  | cons line rest ih =>
    cases h : name? line with
    | some name =>
      rw [ofLines_cons_of_header h, List.filterMap_cons_some h, ← ih]
      rfl
    | none =>
      rw [ofLines_cons_of_none h, List.filterMap_cons_none h, ← ih]
      rfl

theorem ofLines_concat_of_none (hname : name? line = none) (hentry : entryOf? line = none)
    (lines : List Text) : ofLines (lines ++ [line]) = ofLines lines := by
  induction lines with
  | nil => rw [List.nil_append, ofLines_cons_of_none hname, hentry]; rfl
  | cons first rest ih =>
    rw [List.cons_append]
    cases hfirst : name? first with
    | some name => rw [ofLines_cons_of_header hfirst, ofLines_cons_of_header hfirst, ih]
    | none => rw [ofLines_cons_of_none hfirst, ofLines_cons_of_none hfirst, ih]

theorem ofLines_concat_of_header (hname : name? line = some name) (lines : List Text) :
    ofLines (lines ++ [line]) =
      { ofLines lines with sections := (ofLines lines).sections ++ [⟨name, []⟩] } := by
  induction lines with
  | nil => rw [List.nil_append, ofLines_cons_of_header hname]; rfl
  | cons first rest ih =>
    rw [List.cons_append]
    cases hfirst : name? first with
    | some name => rw [ofLines_cons_of_header hfirst, ofLines_cons_of_header hfirst, ih]; rfl
    | none => rw [ofLines_cons_of_none hfirst, ofLines_cons_of_none hfirst, ih]

theorem ofLines_concat_of_entry (hname : name? line = none) (hentry : entryOf? line = some entry)
    (lines : List Text) :
    ofLines (lines ++ [line]) = SettingsReader.addEntry entry (ofLines lines) := by
  induction lines with
  | nil => rw [List.nil_append, ofLines_cons_of_none hname, hentry]; rfl
  | cons first rest ih =>
    rw [List.cons_append]
    -- the entry goes to the shared entries of the rest exactly if the rest has no section
    cases hfirst : name? first with
    | some name =>
      rw [ofLines_cons_of_header hfirst, ofLines_cons_of_header hfirst, ih]
      cases hrest : (ofLines rest).sections <;>
        simp [SettingsReader.addEntry, SettingsReader.addToLast, hrest]
    | none =>
      rw [ofLines_cons_of_none hfirst, ofLines_cons_of_none hfirst, ih]
      cases hrest : (ofLines rest).sections <;> simp [SettingsReader.addEntry, hrest]

end Settings

end PathFilter
