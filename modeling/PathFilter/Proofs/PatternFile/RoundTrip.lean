import PathFilter.PatternFile.Lines
import PathFilter.Proofs.Text.Trim

/-!
Pattern files, written and read. A file is cut wherever a line may end, so what it yields is what
its parts yield, and the nothing between a carriage return and the line feed behind it yields no
pattern. A line yields the pattern that it holds, if it holds one. So every way to write a list of
patterns is read back, and all that is ever read can be written.
-/

set_option autoImplicit false
set_option relaxedAutoImplicit false

namespace PathFilter

private theorem Text.isComment_eq_false_iff {text : Text} :
    isComment text = false ↔ text ≠ [] ∧ text.head? ≠ some '#' ∧ text.head? ≠ some ';' := by
  cases text with
  | nil => simp [isComment]
  | cons c rest => simp [isComment]

namespace PatternFile

theorem isLineEnd_eq_false_iff {c : Char} : isLineEnd c = false ↔ c ≠ '\r' ∧ c ≠ '\n' := by
  simp [isLineEnd]

theorem patterns_append_mark (left right : Text) {mark : Char} (hmark : isLineEnd mark = true) :
    patterns (left ++ mark :: right) = patterns left ++ patterns right := by
  rw [patterns, Text.cut_append isLineEnd left right mark hmark, List.map_append,
    List.filter_append]
  rfl

/-- A carriage return and a line feed together cut off an empty line, which yields nothing. -/
theorem LineEnd.patterns_append {ending : Text} (h : LineEnd ending) (left right : Text) :
    patterns (left ++ ending ++ right) = patterns left ++ patterns right := by
  cases h with
  | feed =>
    rw [List.append_assoc, List.singleton_append]
    exact patterns_append_mark left right (by decide)
  | carriage =>
    rw [List.append_assoc, List.singleton_append]
    exact patterns_append_mark left right (by decide)
  | both =>
    have hfeed : patterns ('\n' :: right) = patterns right :=
      patterns_append_mark [] right (by decide)
    have hboth : left ++ ['\r', '\n'] ++ right = left ++ '\r' :: '\n' :: right := by simp
    rw [hboth, patterns_append_mark left ('\n' :: right) (by decide), hfeed]

theorem patterns_of_line {line : Text} (h : ∀ c ∈ line, isLineEnd c = false) :
    patterns line = (patternOf? line).toList := by
  rw [patterns, Text.cut_of_forall isLineEnd h, List.map_singleton, List.filter_singleton,
    patternOf?]
  cases Text.isComment (Text.trim line) <;> rfl

private theorem loadable_iff {text : Text} :
    Loadable text ↔
      Text.isComment text = false ∧ Text.trim text = text ∧ ∀ c ∈ text, isLineEnd c = false := by
  rw [Text.isComment_eq_false_iff]
  constructor
  · intro loadable
    exact ⟨⟨loadable.ne_nil, loadable.noComment⟩, loadable.trimmed,
      fun c hc => isLineEnd_eq_false_iff.mpr (loadable.oneLine c hc)⟩
  · rintro ⟨⟨hne, hmark⟩, htrim, hline⟩
    exact ⟨hne, htrim, fun c hc => isLineEnd_eq_false_iff.mp (hline c hc), hmark⟩

instance : DecidablePred Loadable := fun text =>
  decidable_of_iff (Text.isComment text = false ∧ Text.trim text = text ∧
    text.all (fun c => !isLineEnd c) = true) (by simp [loadable_iff])

instance : DecidablePred Padding := fun padding =>
  decidable_of_iff (padding.all (fun c => Text.isBlank c && !isLineEnd c) = true)
    (by simp [Padding])

theorem Padding.isBlank {padding : Text} (h : Padding padding) :
    ∀ c ∈ padding, Text.isBlank c = true := fun c hc => (h c hc).1

theorem Padding.oneLine {padding : Text} (h : Padding padding) :
    ∀ c ∈ padding, isLineEnd c = false := fun c hc => (h c hc).2

theorem padding_nil : Padding [] := fun _ hc => absurd hc List.not_mem_nil

theorem LineHolds.oneLine {held : List Text} {line : Text} (h : LineHolds held line) :
    ∀ c ∈ line, isLineEnd c = false := by
  cases h with
  | pattern loadable hbefore hafter =>
    intro c hc
    rcases List.mem_append.mp hc with hc | hc
    · rcases List.mem_append.mp hc with hc | hc
      · exact hbefore.oneLine c hc
      · exact (loadable_iff.mp loadable).2.2 c hc
    · exact hafter.oneLine c hc
  | blank hpadding => exact hpadding.oneLine
  | comment hpadding hmark hrest =>
    intro c hc
    rcases List.mem_append.mp hc with hc | hc
    · exact hpadding.oneLine c hc
    · rcases List.mem_cons.mp hc with rfl | hc
      · rcases hmark with rfl | rfl <;> decide
      · exact hrest c hc

theorem isComment_trim_of_mark {mark : Char} (hmark : mark = '#' ∨ mark = ';') (rest : Text) :
    Text.isComment (Text.trim (mark :: rest)) = true := by
  by_contra hspeaks
  obtain ⟨hne, hnumber, hsemicolon⟩ := Text.isComment_eq_false_iff.mp (Bool.not_eq_true _ ▸ hspeaks)
  have hblank : ∀ c, (mark :: rest).head? = some c → Text.isBlank c = false := by
    intro c hc
    obtain rfl : mark = c := Option.some.inj hc
    rcases hmark with rfl | rfl <;> decide
  have hhead : (Text.trim (mark :: rest)).head? = some mark := Text.head?_trim hblank hne
  rcases hmark with rfl | rfl
  · exact hnumber hhead
  · exact hsemicolon hhead

private theorem LineHolds.toList_patternOf? {held : List Text} {line : Text}
    (h : LineHolds held line) :
    (patternOf? line).toList = held := by
  cases h with
  | @pattern text before after loadable hbefore hafter =>
    obtain ⟨hspeaks, htrim, -⟩ := loadable_iff.mp loadable
    have hcontent : Text.trim (before ++ text ++ after) = text :=
      (Text.trim_pad hbefore.isBlank hafter.isBlank text).trans htrim
    rw [patternOf?, hcontent, hspeaks]
    rfl
  | blank hpadding =>
    have hcontent : Text.trim line = [] := by
      have hpad := Text.trim_pad hpadding.isBlank padding_nil.isBlank []
      rw [List.append_nil, List.append_nil] at hpad
      exact hpad
    rw [patternOf?, hcontent]
    rfl
  | @comment padding rest mark hpadding hmark _ =>
    have hcontent : Text.trim (padding ++ mark :: rest) = Text.trim (mark :: rest) := by
      have hpad := Text.trim_pad hpadding.isBlank padding_nil.isBlank (mark :: rest)
      rwa [List.append_nil] at hpad
    rw [patternOf?, hcontent, isComment_trim_of_mark hmark]
    rfl

theorem LineHolds.patterns_eq {held : List Text} {line : Text} (h : LineHolds held line) :
    patterns line = held := by
  rw [patterns_of_line h.oneLine, h.toList_patternOf?]

theorem Holds.patterns_eq {held : List Text} {text : Text} (h : Holds held text) :
    patterns text = held := by
  induction h with
  | last hline => exact hline.patterns_eq
  | line hline hending _ ih => rw [hending.patterns_append, hline.patterns_eq, ih]

private theorem loadable_of_mem_patterns {text pattern : Text} (h : pattern ∈ patterns text) :
    Loadable pattern := by
  obtain ⟨hmem, hspeaks⟩ := List.mem_filter.mp h
  obtain ⟨line, hline, rfl⟩ := List.mem_map.mp hmem
  have honeLine : ∀ c ∈ line, isLineEnd c = false := Text.eq_false_of_mem_cut hline
  refine loadable_iff.mpr ⟨by simpa using hspeaks, Text.trim_trim line, ?_⟩
  intro c hc
  exact honeLine c (Text.mem_of_mem_trim hc)

private theorem lineHolds_self {pattern : Text} (loadable : Loadable pattern) :
    LineHolds [pattern] pattern := by
  have hline := LineHolds.pattern loadable padding_nil padding_nil
  rwa [List.nil_append, List.append_nil] at hline

private theorem holds_intercalate {held : List Text} (h : ∀ pattern ∈ held, Loadable pattern) :
    Holds held (['\n'].intercalate held) := by
  induction held with
  | nil => exact Holds.last (LineHolds.blank padding_nil)
  | cons pattern rest ih =>
    have hline := lineHolds_self (h pattern List.mem_cons_self)
    have hrest := ih fun other hother => h other (List.mem_cons_of_mem pattern hother)
    cases rest with
    | nil =>
      rw [List.intercalate_singleton]
      exact Holds.last hline
    | cons next rest =>
      rw [List.intercalate_cons_cons]
      exact Holds.line hline LineEnd.feed hrest

/-- Every way to write patterns that lines can hold is read back: with blanks around them, with
blank lines and comments between them, and with any ends of lines. All patterns that are read are
such patterns, so they are read again from a file that has one of them a line. -/
theorem patterns_of_holds :
    (∀ {held : List Text} {text : Text}, Holds held text → patterns text = held) ∧
    ∀ text : Text, (∀ pattern ∈ patterns text, Loadable pattern) ∧
      patterns (['\n'].intercalate (patterns text)) = patterns text := by
  constructor
  · intro held text h
    exact h.patterns_eq
  · intro text
    have hloadable : ∀ pattern ∈ patterns text, Loadable pattern :=
      fun _ hpattern => loadable_of_mem_patterns hpattern
    exact ⟨hloadable, (holds_intercalate hloadable).patterns_eq⟩

theorem patterns_of_holds_mixed :
    let held : List Text := [['*', '.', 'o'], ['a', ' ', '#']]
    let text : Text := ['\u0085', ';', 'x'] ++ ['\r', '\n'] ++ ([' '] ++ ['\r'] ++
      (['\t', '*', '.', 'o', '\u00a0'] ++ ['\n'] ++ ['a', ' ', '#', '\u2028']))
    Holds held text ∧ patterns text = held := by
  intro held text
  have hcomment : LineHolds [] ['\u0085', ';', 'x'] :=
    @LineHolds.comment ['\u0085'] ['x'] ';' (by decide) (Or.inr rfl) (by simp; decide)
  have hblank : LineHolds [] [' '] := LineHolds.blank (by decide)
  have hfirst : LineHolds [['*', '.', 'o']] ['\t', '*', '.', 'o', '\u00a0'] :=
    @LineHolds.pattern ['*', '.', 'o'] ['\t'] ['\u00a0'] (by decide) (by decide) (by decide)
  have hlast : LineHolds [['a', ' ', '#']] ['a', ' ', '#', '\u2028'] :=
    @LineHolds.pattern ['a', ' ', '#'] [] ['\u2028'] (by decide) (by decide) (by decide)
  have holds : Holds held text :=
    Holds.line hcomment LineEnd.both (Holds.line hblank LineEnd.carriage
      (Holds.line hfirst LineEnd.feed (Holds.last hlast)))
  exact ⟨holds, patterns_of_holds.1 holds⟩

end PatternFile

end PathFilter
