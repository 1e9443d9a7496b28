import PathFilter.Proofs.Filter.Loads
import PathFilter.Proofs.PatternFile.RoundTrip

/-!
Pattern files and the ends of their lines. A text is taken apart into its first line, the end of
that line and the rest, a carriage return and a line feed after it being one end; line by line it
yields the patterns that the cut at single characters yields. Which of the three ends a line has
makes no difference, and files that are joined by ends of lines are loaded as one.
-/

set_option autoImplicit false
set_option relaxedAutoImplicit false

namespace PathFilter.PatternFile

/-- Texts that are the same but for the ends of their lines. -/
inductive SameButLineEnds : Text → Text → Prop
  | nil : SameButLineEnds [] []
  | char {c : Char} {text other : Text} : isLineEnd c = false → SameButLineEnds text other →
      SameButLineEnds (c :: text) (c :: other)
  | ending {first second text other : Text} : LineEnd first → LineEnd second →
      SameButLineEnds text other → SameButLineEnds (first ++ text) (second ++ other)

/-- A text is made of others in order, with the end of a line between each two of them. -/
inductive Joined : List Text → Text → Prop
  | one (text : Text) : Joined [text] text
  | more {text ending whole : Text} {texts : List Text} : LineEnd ending → Joined texts whole →
      Joined (text :: texts) (text ++ ending ++ whole)

/-- The end of a line is a lone carriage return only if no line feed follows. -/
def Closed (ending rest : Text) : Prop := ending = ['\r'] → rest.head? ≠ some '\n'

private theorem oneLine_or_exists_ended (text : Text) :
    (∀ c ∈ text, isLineEnd c = false) ∨
      ∃ line ending rest, text = line ++ ending ++ rest ∧ (∀ c ∈ line, isLineEnd c = false) ∧
        LineEnd ending ∧ Closed ending rest := by
  induction text with
  | nil => exact Or.inl fun c hc => absurd hc List.not_mem_nil
  | cons c rest ih =>
    have hempty : ∀ c ∈ ([] : Text), isLineEnd c = false := fun c hc => absurd hc List.not_mem_nil
    by_cases hfeed : c = '\n'
    · refine Or.inr ⟨[], ['\n'], rest, by rw [hfeed]; rfl, hempty, .feed, ?_⟩
      exact fun h => absurd h (by decide)
    by_cases hreturn : c = '\r'
    · -- A line feed behind a carriage return belongs to the same end.
      by_cases hboth : ∃ after, rest = '\n' :: after
      · obtain ⟨after, rfl⟩ := hboth
        refine Or.inr ⟨[], ['\r', '\n'], after, by rw [hreturn]; rfl, hempty, .both, ?_⟩
        exact fun h => absurd h (by decide)
      · refine Or.inr ⟨[], ['\r'], rest, by rw [hreturn]; rfl, hempty, .carriage, ?_⟩
        intro _ hhead
        exact hboth ⟨rest.tail, List.eq_cons_of_mem_head? hhead⟩
    · have hc : isLineEnd c = false := isLineEnd_eq_false_iff.mpr ⟨hreturn, hfeed⟩
      rcases ih with honeLine | ⟨line, ending, after, rfl, hline, hending, hclosed⟩
      · exact Or.inl (List.forall_mem_cons.mpr ⟨hc, honeLine⟩)
      · exact Or.inr ⟨c :: line, ending, after, rfl, List.forall_mem_cons.mpr ⟨hc, hline⟩, hending,
          hclosed⟩

/-- Unless a carriage return and a line feed end a line together, its characters are read one by
one. -/
theorem linesOf_cons {c : Char} {text : Text} (h : ¬ (c = '\r' ∧ text.head? = some '\n')) :
    linesOf (c :: text) =
      if isLineEnd c then [] :: linesOf text else Text.consFirst c (linesOf text) := by
  rw [linesOf]
  rintro rest rfl rfl
  exact h ⟨rfl, rfl⟩

private theorem linesOf_cons_of_name {c : Char} (hc : isLineEnd c = false) (text : Text) :
    linesOf (c :: text) = Text.consFirst c (linesOf text) := by
  rw [linesOf_cons, if_neg (Bool.eq_false_iff.mp hc)]
  exact fun h => (isLineEnd_eq_false_iff.mp hc).1 h.1

private theorem linesOf_of_oneLine {line : Text} (h : ∀ c ∈ line, isLineEnd c = false) :
    linesOf line = [line] := by
  induction line with
  | nil => rfl
  | cons c line ih =>
    obtain ⟨hc, hline⟩ := List.forall_mem_cons.mp h
    rw [linesOf_cons_of_name hc, ih hline]
    rfl

private theorem linesOf_append {line ending rest : Text} (hline : ∀ c ∈ line, isLineEnd c = false)
    (hending : LineEnd ending) (hclosed : Closed ending rest) :
    linesOf (line ++ ending ++ rest) = line :: linesOf rest := by
  induction line with
  | nil =>
    cases hending with
    | feed => rfl
    | both => rfl
    | carriage => exact linesOf_cons fun h => hclosed rfl h.2
  | cons c line ih =>
    obtain ⟨hc, hline⟩ := List.forall_mem_cons.mp hline
    rw [List.cons_append, List.cons_append, linesOf_cons_of_name hc, ih hline]
    rfl

/-- Read line by line, a file yields the patterns that its cut at single characters yields. -/
theorem patterns_eq_patternsByLines (text : Text) : patterns text = patternsByLines text := by
  rcases oneLine_or_exists_ended text with h | ⟨line, ending, rest, htext, hline, hending, hclosed⟩
  · rw [patterns_of_line h, patternsByLines, linesOf_of_oneLine h, List.filterMap_cons]
    cases patternOf? text <;> rfl
  · -- The lines behind the first end are fewer characters, so they are read alike by recursion.
    have hshorter : rest.length < text.length := by
      have hpos : 0 < ending.length := by cases hending <;> decide
      rw [htext, List.length_append, List.length_append]
      omega
    rw [htext, hending.patterns_append, patterns_of_line hline, patterns_eq_patternsByLines rest,
      patternsByLines, patternsByLines, linesOf_append hline hending hclosed, List.filterMap_cons]
    cases patternOf? line <;> rfl
termination_by text.length

private theorem SameButLineEnds.patterns_append_eq {text other : Text}
    (h : SameButLineEnds text other) (before : Text) :
    patterns (before ++ text) = patterns (before ++ other) := by
  induction h generalizing before with
  | nil => rfl
  | @char c text other _ _ ih => rw [List.append_cons, List.append_cons before c other, ih]
  | ending hfirst hsecond _ ih =>
    rw [← List.append_assoc, ← List.append_assoc, hfirst.patterns_append, hsecond.patterns_append]
    exact congrArg (patterns before ++ ·) (ih [])

theorem Joined.patterns_eq {texts : List Text} {whole : Text} (h : Joined texts whole) :
    patterns whole = texts.flatMap patterns := by
  induction h with
  | one text => rw [List.flatMap_singleton]
  | more hending _ ih => rw [hending.patterns_append, List.flatMap_cons, ih]

/-- A pattern file is read line by line, a line ending at a line feed, at a carriage return or at
the two together. Other ends of lines yield the same patterns, a text that is cut at the end of a
line yields the patterns of both parts, and loading files joined by ends of lines adds what loading
them one after the other adds. -/
theorem patterns_by_lines :
    (∀ text : Text, patterns text = patternsByLines text) ∧
    (∀ {text other : Text}, SameButLineEnds text other → patterns text = patterns other) ∧
    (∀ (left right : Text) {ending : Text}, LineEnd ending →
      patterns (left ++ ending ++ right) = patterns left ++ patterns right) ∧
    ∀ (filter : Filter) (files : Files) (role : Role) (options : MatchOptions)
      {parts : List (FileName × Text)} {name : FileName} {whole : Text},
      Joined (parts.map Prod.snd) whole → files.Holds name whole →
      (∀ part ∈ parts, files.Holds part.1 part.2) →
      ∃ after, Filter.afterFile files role options filter name = .ok after ∧
        (parts.map Prod.fst).foldlM (Filter.afterFile files role options) filter = .ok after ∧
        filter.Gains after role
          (((parts.map Prod.snd).flatMap patterns).map fun text => .own text options) := by
  refine ⟨patterns_eq_patternsByLines, ?_, ?_, ?_⟩
  · intro text other h
    exact h.patterns_append_eq []
  · intro left right ending hending
    exact hending.patterns_append left right
  · intro filter files role options parts name whole joined hwhole hparts
    refine ⟨_, Filter.afterFile_of_holds filter role options hwhole, ?_, ?_⟩
    · rw [Filter.foldlM_afterFile filter role options hparts, joined.patterns_eq]
    · rw [← joined.patterns_eq]
      exact Filter.gains_addAll filter role (patterns whole) options

/-- Ends of lines at other ends of lines: a blank line that vanishes where two ends become one, and
a file that begins with a line feed behind the carriage return that it is joined by. -/
theorem patterns_by_lines_seams :
    let text : Text := ['a', '\r', '\n', '\r', 'b']
    let other : Text := ['a', '\r', '\n', 'b']
    let first : Text := ['a', '\r']
    let second : Text := ['\n', '#', 'b', '\n', 'c']
    let whole : Text := first ++ ['\r'] ++ second
    let parts : List (FileName × Text) := [([1], first), ([2], second)]
    let files := Files.ofReadings [([1], .ok (Utf8.encode first)), ([2], .ok (Utf8.encode second)),
      ([3], .ok (Utf8.encode whole))]
    let load := Filter.afterFile files .ignores .none
    SameButLineEnds text other ∧ patterns text = patterns other ∧
      patterns whole = patterns first ++ patterns second ∧
      Joined (parts.map Prod.snd) whole ∧
      ∃ after, load .blank [3] = .ok after ∧ (parts.map Prod.fst).foldlM load .blank = .ok after ∧
        Filter.blank.Gains after .ignores [.own ['a'] .none, .own ['c'] .none] := by
  intro text other first second whole parts files load
  obtain ⟨-, hends, hcut, hloads⟩ := patterns_by_lines
  have hsame : SameButLineEnds text other :=
    .char (by decide) (.ending .both .carriage (.ending .carriage .feed (.char (by decide) .nil)))
  have hjoined : Joined (parts.map Prod.snd) whole := .more .carriage (.one second)
  have hparts : ∀ part ∈ parts, files.Holds part.1 part.2 :=
    List.forall_mem_cons.mpr ⟨rfl, List.forall_mem_singleton.mpr rfl⟩
  exact ⟨hsame, hends hsame, hcut first second .carriage, hjoined,
    hloads .blank files .ignores .none hjoined rfl hparts⟩

end PathFilter.PatternFile
