import Mathlib.Tactic.SplitIfs
import PathFilter.Text.Lines

set_option autoImplicit false
set_option relaxedAutoImplicit false

namespace PathFilter.Text

/-- The beginning of a text that its first lines make up, their ends included. -/
def firstLines : Nat → Text → Text
  | 0, _ => []
  | _ + 1, [] => []
  | count + 1, c :: rest =>
    if c = '\n' then c :: firstLines count rest else c :: firstLines (count + 1) rest

theorem cut_eq_splitOnP {α : Type} (isCut : α → Bool) (text : List α) :
    cut isCut text = List.splitOnP isCut text := by
  induction text with
  | nil => exact List.splitOnP_nil.symm
  | cons a rest ih =>
    rw [cut, List.splitOnP_cons_eq_if_modifyHead, ← ih]
    obtain ⟨first, others, hcut⟩ := List.exists_cons_of_ne_nil (cut_ne_nil isCut rest)
    rw [hcut]
    rfl

theorem cut_of_not_mem {α : Type} [DecidableEq α] {mark : α} {piece : List α} (h : mark ∉ piece) :
    cut (· == mark) piece = [piece] :=
  cut_of_forall _ fun _ ha => beq_eq_false_iff_ne.mpr fun heq => h (heq ▸ ha)

theorem cut_append_mark {α : Type} [DecidableEq α] {mark : α} {piece : List α} (h : mark ∉ piece)
    (rest : List α) : cut (· == mark) (piece ++ mark :: rest) = piece :: cut (· == mark) rest := by
  rw [cut_append (· == mark) piece rest mark (beq_self_eq_true mark), cut_of_not_mem h,
    List.singleton_append]

theorem lines_of_no_feed {line : Text} (h : '\n' ∉ line) :
    lines line = if line.isEmpty then [] else [line] := by
  rw [lines, cut_of_not_mem h, linesOfPieces]

theorem lines_append_feed {line : Text} (h : '\n' ∉ line) (rest : Text) :
    lines (line ++ '\n' :: rest) = dropReturn line :: lines rest := by
  rw [lines, cut_append_mark h, lines]
  obtain ⟨piece, pieces, hpieces⟩ := List.exists_cons_of_ne_nil (cut_ne_nil (· == '\n') rest)
  rw [hpieces, linesOfPieces]

/-- Facts on a text follow from texts without a mark and from texts with a first mark and a rest. -/
theorem cut_induction {α : Type} [DecidableEq α] (mark : α) {motive : List α → Prop}
    (last : ∀ piece, mark ∉ piece → motive piece)
    (ended : ∀ piece rest, mark ∉ piece → motive rest → motive (piece ++ mark :: rest))
    (text : List α) : motive text := by
  cases hsplit : splitFirst? mark text with
  | none => exact last text (splitFirst?_eq_none.mp hsplit)
  | some parts =>
    obtain ⟨piece, rest⟩ := parts
    obtain ⟨htext, hpiece⟩ := splitFirst?_eq_some hsplit
    have hshorter : rest.length < text.length := by
      rw [htext, List.length_append, List.length_cons]
      omega
    rw [htext]
    exact ended piece rest hpiece (cut_induction mark last ended rest)
termination_by text.length

/-- Facts on lines follow from texts of one line and from texts with a first line and a rest. -/
theorem lines_induction {motive : Text → Prop} (last : ∀ line, '\n' ∉ line → motive line)
    (ended : ∀ line rest, '\n' ∉ line → motive rest → motive (line ++ '\n' :: rest))
    (text : Text) : motive text :=
  cut_induction '\n' last ended text

private theorem mem_of_mem_dropReturn {c : Char} {line : Text} (h : c ∈ dropReturn line) :
    c ∈ line := by
  rw [dropReturn] at h
  split_ifs at h
  · exact List.dropLast_subset line h
  · exact h

theorem feed_not_mem_of_mem_lines {text line : Text} (h : line ∈ lines text) : '\n' ∉ line := by
  induction text using lines_induction with
  | last whole hwhole =>
    rw [lines_of_no_feed hwhole] at h
    split_ifs at h
    · exact absurd h List.not_mem_nil
    · rw [List.mem_singleton.mp h]
      exact hwhole
  | ended first rest hfirst ih =>
    rw [lines_append_feed hfirst] at h
    rcases List.mem_cons.mp h with rfl | hrest
    · exact fun hfeed => hfirst (mem_of_mem_dropReturn hfeed)
    · exact ih hrest

theorem lines_flatMap {texts : List Text}
    (h : ∀ line ∈ texts, '\n' ∉ line ∧ line.getLast? ≠ some '\r') :
    lines (texts.flatMap (· ++ ['\n'])) = texts := by
  induction texts with
  | nil => rfl
  | cons line rest ih =>
    obtain ⟨hfeed, hreturn⟩ := h line List.mem_cons_self
    have hrest := ih fun other hother => h other (List.mem_cons_of_mem line hother)
    have hline : dropReturn line = line := if_neg hreturn
    rw [List.flatMap_cons, List.append_assoc, List.singleton_append, lines_append_feed hfeed, hline,
      hrest]

private theorem firstLines_of_no_feed {line : Text} (h : '\n' ∉ line) (count : Nat) :
    firstLines (count + 1) line = line := by
  induction line with
  | nil => rfl
  | cons c rest ih =>
    rw [List.mem_cons, not_or] at h
    rw [firstLines, if_neg (Ne.symm h.1), ih h.2]

private theorem firstLines_append_feed {line : Text} (h : '\n' ∉ line) (count : Nat) (rest : Text) :
    firstLines (count + 1) (line ++ '\n' :: rest) = line ++ '\n' :: firstLines count rest := by
  induction line with
  | nil => rw [List.nil_append, firstLines, if_pos rfl, List.nil_append]
  | cons c line ih =>
    rw [List.mem_cons, not_or] at h
    rw [List.cons_append, firstLines, if_neg (Ne.symm h.1), ih h.2, List.cons_append]

theorem lines_firstLines (count : Nat) (text : Text) :
    lines (firstLines count text) = (lines text).take count := by
  induction text using lines_induction generalizing count with
  | last line hline =>
    cases count with
    | zero => rw [firstLines, List.take_zero]; rfl
    | succ count =>
      rw [firstLines_of_no_feed hline, lines_of_no_feed hline]
      split_ifs <;> simp
  | ended line rest hline ih =>
    cases count with
    | zero => rw [firstLines, List.take_zero]; rfl
    | succ count =>
      rw [firstLines_append_feed hline, lines_append_feed hline, lines_append_feed hline, ih,
        List.take_succ_cons]

end PathFilter.Text
