import PathFilter.Proofs.Settings.Reading
import PathFilter.Settings.Source

set_option autoImplicit false
set_option relaxedAutoImplicit false

namespace PathFilter

namespace SettingsLine

/-- The lines after the header of a repository and before the next header. -/
def under (repository : Text) (lines : List Text) : List Text :=
  beforeHeader (lines.dropWhile fun line => name? line != some repository).tail

def assigned (key : Text) (lines : List Text) : List Text :=
  ((lines.filterMap assignment?).filter fun pair =>
    Text.lowerAscii pair.1 = Text.lowerAscii key).map Prod.snd

variable {line header name repository : Text}

private theorem under_cons_of_header (h : name? line = some repository) (lines : List Text) :
    under repository (line :: lines) = beforeHeader lines := by
  simp [under, h]

private theorem under_cons_of_ne (h : name? line ≠ some repository) (lines : List Text) :
    under repository (line :: lines) = under repository lines := by
  simp [under, h]

private theorem under_append_of_unnamed {inside : List Text}
    (unnamed : ∀ line ∈ inside, name? line = none) (lines : List Text) :
    under repository (inside ++ lines) = under repository lines := by
  induction inside with
  | nil => rfl
  | cons line rest ih =>
    have hline : name? line ≠ some repository := by
      rw [unnamed line List.mem_cons_self]
      exact (Option.some_ne_none repository).symm
    rw [List.cons_append, under_cons_of_ne hline]
    exact ih fun other hother => unnamed other (List.mem_cons_of_mem line hother)

private theorem beforeHeader_append_header (h : name? header = some name)
    (before lines : List Text) :
    beforeHeader (before ++ header :: lines) = beforeHeader before := by
  induction before with
  | nil => exact beforeHeader_cons_of_header h lines
  | cons line rest ih =>
    cases hline : name? line with
    | some other =>
      rw [List.cons_append, beforeHeader_cons_of_header hline, beforeHeader_cons_of_header hline]
    | none =>
      rw [List.cons_append, beforeHeader_cons_of_none hline, beforeHeader_cons_of_none hline, ih]

private theorem under_append_header (h : name? header = some name) (hne : name ≠ repository)
    {inside : List Text} (unnamed : ∀ line ∈ inside, name? line = none) (before after : List Text) :
    under repository (before ++ header :: (inside ++ after)) =
      under repository (before ++ header :: after) := by
  have hheader : name? header ≠ some repository := by
    rw [h]
    exact fun heq => hne (Option.some.inj heq)
  induction before with
  | nil =>
    rw [List.nil_append, List.nil_append, under_cons_of_ne hheader, under_cons_of_ne hheader,
      under_append_of_unnamed unnamed]
  | cons line rest ih =>
    rw [List.cons_append, List.cons_append]
    by_cases hline : name? line = some repository
    · rw [under_cons_of_header hline, under_cons_of_header hline, beforeHeader_append_header h,
        beforeHeader_append_header h]
    · rw [under_cons_of_ne hline, under_cons_of_ne hline, ih]

end SettingsLine

namespace Settings

open SettingsLine

private theorem valuesIn_filterMap_entryOf? (lines : List Text) (key : Text) :
    valuesIn (lines.filterMap entryOf?) (Text.lowerAscii key) = assigned key lines := by
  have hentries : lines.filterMap entryOf? = (lines.filterMap assignment?).map fun pair =>
      (⟨Text.lowerAscii pair.1, pair.2⟩ : Entry) := by
    rw [List.map_filterMap]
    rfl
  rw [valuesIn, hentries, List.filter_map, List.map_map]
  rfl

private theorem sharedValues_ofLines (lines : List Text) (key : Text) :
    (ofLines lines).sharedValues key = assigned key (beforeHeader lines) :=
  valuesIn_filterMap_entryOf? (beforeHeader lines) key

private theorem ownValues_ofLines (lines : List Text) (repository key : Text) :
    (ofLines lines).ownValues repository key = assigned key (under repository lines) := by
  -- both sides stop at the first header of the repository, and what follows it is its shared part
  induction lines with
  | nil => rfl
  | cons line rest ih =>
    cases hline : name? line with
    | some name =>
      by_cases hname : name = repository
      · subst hname
        rw [under_cons_of_header hline, ← sharedValues_ofLines, ofLines_cons_of_header hline]
        simp [ownValues, section?, sharedValues]
      · have hne : name? line ≠ some repository := by
          rw [hline]
          exact fun heq => hname (Option.some.inj heq)
        rw [under_cons_of_ne hne, ← ih, ofLines_cons_of_header hline]
        simp [ownValues, section?, hname]
    | none =>
      have hne : name? line ≠ some repository := by
        rw [hline]
        exact (Option.some_ne_none repository).symm
      rw [under_cons_of_ne hne, ← ih, ofLines_cons_of_none hline]
      rfl

private theorem values_ofLines (lines : List Text) (repository key : Text) :
    (ofLines lines).values repository key =
      if assigned key (under repository lines) = [] then assigned key (beforeHeader lines)
      else assigned key (under repository lines) := by
  rw [values, ownValues_ofLines, sharedValues_ofLines]
  simp only [List.isEmpty_iff]

private theorem ignores_eq_filter (settings : Settings) (repository : Text) :
    settings.ignores repository =
      (settings.values repository "ignores".toList).filter fun value => value ≠ [] := by
  have hempty : (fun value : Text => !value.isEmpty) = fun value => decide (value ≠ []) := by
    funext value
    cases value <;> rfl
  exact congrArg (fun keep => (settings.values repository ignoresKey).filter keep) hempty

private theorem filterMap_name?_inside {inside : List Text}
    (unnamed : ∀ line ∈ inside, name? line = none) (before after : List Text) (header : Text) :
    (before ++ header :: (inside ++ after)).filterMap name? =
      (before ++ header :: after).filterMap name? := by
  simp only [List.filterMap_append, List.filterMap_cons, List.filterMap_eq_nil_iff.mpr unnamed,
    List.nil_append]

private theorem allowed_of_inside {before old new after : List Text} {header : Text}
    (allowed : Settings.Allowed (before ++ header :: (old ++ after)))
    (hold : ∀ line ∈ old, name? line = none)
    (hnew : ∀ line ∈ new, SettingsLine.Allowed line ∧ name? line = none) :
    Settings.Allowed (before ++ header :: (new ++ after)) := by
  rw [allowed_iff_nodup] at allowed ⊢
  obtain ⟨each, names⟩ := allowed
  constructor
  · intro line hline
    simp only [List.mem_append, List.mem_cons] at hline each
    rcases hline with hbefore | rfl | hinside | hafter
    · exact each line (.inl hbefore)
    · exact each line (.inr (.inl rfl))
    · exact (hnew line hinside).1
    · exact each line (.inr (.inr (.inr hafter)))
  · rw [filterMap_name?_inside hold] at names
    rw [filterMap_name?_inside fun line hline => (hnew line hline).2]
    exact names

/-- What the settings of a file answer. A repository has the values under its own header if there
are any, and else those before the first header; ignore patterns are the values of their key without
the empty ones, which are left out after that choice. Lines under the header of one repository may
be replaced by other lines without any change for another one. -/
theorem answers_of_parse {text : Text} {file? : Option FileName} {settings : Settings}
    (parsed : parse text file? = .ok settings) :
    let lines := Text.lines text
    let shared key := assigned key (beforeHeader lines)
    let own repository key := assigned key (under repository lines)
    (∀ repository key, settings.values repository key =
        if own repository key = [] then shared key else own repository key) ∧
      (∀ key, settings.sharedValues key = shared key) ∧
      settings.repositories = lines.filterMap name? ∧
      (∀ repository,
        settings.ignores repository =
          (settings.values repository "ignores".toList).filter (fun value => value ≠ []) ∧
        settings.source.ignores repository = pure (.ok (settings.ignores repository))) ∧
      ∀ (other : Text) (before old new after : List Text) (header name repository : Text),
        lines = before ++ header :: (old ++ after) →
        Text.lines other = before ++ header :: (new ++ after) →
        name? header = some name → name ≠ repository → (∀ line ∈ old, name? line = none) →
        (∀ line ∈ new, SettingsLine.Allowed line ∧ name? line = none) →
        ∃ changed, parse other file? = .ok changed ∧
          (∀ key, changed.values repository key = settings.values repository key ∧
            changed.sharedValues key = settings.sharedValues key) ∧
          changed.ignores repository = settings.ignores repository ∧
          changed.repositories = settings.repositories := by
  obtain ⟨allowed, rfl⟩ := parse_eq_ok_iff.mp parsed
  intro lines shared own
  refine ⟨values_ofLines lines, sharedValues_ofLines lines, repositories_ofLines lines, ?_, ?_⟩
  · intro repository
    exact ⟨ignores_eq_filter (ofLines lines) repository, rfl⟩
  · intro other before old new after header name repository hlines hother hheader hne hold hnew
    have hunnamed : ∀ line ∈ new, name? line = none := fun line hline => (hnew line hline).2
    have hchanged : Settings.Allowed (Text.lines other) := by
      rw [hother]
      exact allowed_of_inside (hlines ▸ allowed) hold hnew
    have hunder : under repository (Text.lines other) = under repository lines := by
      rw [hother, hlines, under_append_header hheader hne hold,
        under_append_header hheader hne hunnamed]
    have hbefore : beforeHeader (Text.lines other) = beforeHeader lines := by
      rw [hother, hlines, beforeHeader_append_header hheader, beforeHeader_append_header hheader]
    have hnames : (Text.lines other).filterMap name? = lines.filterMap name? := by
      rw [hother, hlines, filterMap_name?_inside hold, filterMap_name?_inside hunnamed]
    have hvalues : ∀ key, (ofLines (Text.lines other)).values repository key =
        (ofLines lines).values repository key := by
      intro key
      rw [values_ofLines, values_ofLines, hunder, hbefore]
    refine ⟨_, parse_of_allowed hchanged, ?_, ?_, ?_⟩
    · intro key
      exact ⟨hvalues key, by rw [sharedValues_ofLines, sharedValues_ofLines, hbefore]⟩
    · rw [ignores, ignores, hvalues]
    · exact (repositories_ofLines _).trans (hnames.trans (repositories_ofLines lines).symm)

/-- A section whose only ignore value is empty blocks the shared ones, and lines put under another
header make no difference to it. -/
theorem answers_of_parse_blocked :
    ∃ settings changed,
      parse "ignores = *.tmp\n[a]\nIgnores =\n[b]\nk = v\n".toList none = .ok settings ∧
      settings.values "a".toList "ignores".toList = [[]] ∧ settings.ignores "a".toList = [] ∧
      settings.ignores "b".toList = ["*.tmp".toList] ∧
      parse "ignores = *.tmp\n[a]\nIgnores =\n[b]\nignores = *.o\n".toList none = .ok changed ∧
      changed.ignores "a".toList = [] := by
  have parsed : parse "ignores = *.tmp\n[a]\nIgnores =\n[b]\nk = v\n".toList none =
      .ok ⟨[⟨"ignores".toList, "*.tmp".toList⟩],
        [⟨"a".toList, [⟨"ignores".toList, []⟩]⟩, ⟨"b".toList, [⟨"k".toList, "v".toList⟩]⟩]⟩ := by
    decide +kernel
  obtain ⟨hvalues, -, -, hignores, hinside⟩ := answers_of_parse parsed
  have ha := (hvalues "a".toList "ignores".toList).trans
    (b := _) (c := [[]]) (by decide +kernel)
  have hb := (hvalues "b".toList "ignores".toList).trans
    (b := _) (c := ["*.tmp".toList]) (by decide +kernel)
  have hblocked := (hignores "a".toList).1.trans (congrArg (List.filter _) ha)
  have hopen := (hignores "b".toList).1.trans (congrArg (List.filter _) hb)
  have shape : Assignment (Text.trim "ignores = *.o".toList) "ignores ".toList " *.o".toList :=
    ⟨by decide +kernel, by decide +kernel, by decide +kernel⟩
  have hnew : ∀ line ∈ ["ignores = *.o".toList],
      SettingsLine.Allowed line ∧ name? line = none := by
    intro line hline
    rw [List.mem_singleton.mp hline]
    exact ⟨.assignment shape (by decide +kernel), by decide +kernel⟩
  obtain ⟨changed, hchanged, -, hsame, -⟩ := hinside
    "ignores = *.tmp\n[a]\nIgnores =\n[b]\nignores = *.o\n".toList
    ["ignores = *.tmp".toList, "[a]".toList, "Ignores =".toList] ["k = v".toList]
    ["ignores = *.o".toList] [] "[b]".toList "b".toList "a".toList (by decide +kernel)
    (by decide +kernel) (by decide +kernel) (by decide) (by decide +kernel) hnew
  exact ⟨_, changed, parsed, ha, hblocked, hopen, hchanged, hsame.trans hblocked⟩

end Settings

end PathFilter
