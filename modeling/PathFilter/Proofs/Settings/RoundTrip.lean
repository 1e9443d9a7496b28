import PathFilter.Proofs.Settings.Reading
import PathFilter.Proofs.Text.Trim
import PathFilter.Settings.Printer

set_option autoImplicit false
set_option relaxedAutoImplicit false

namespace PathFilter

open SettingsLine

/-- The line of an entry without its end. -/
def Entry.content (entry : Entry) : Text := entry.key ++ " = ".toList ++ entry.value

def Section.header (part : Section) : Text := '[' :: (part.name ++ [']'])

def Section.contents (part : Section) : List Text :=
  part.header :: part.entries.map Entry.content

def Settings.contents (settings : Settings) : List Text :=
  settings.shared.map Entry.content ++ settings.sections.flatMap Section.contents

private theorem Text.Trimmed.not_blank_head {text : Text} (trimmed : text.Trimmed) {c : Char}
    (h : text.head? = some c) : Text.isBlank c = false := by
  rw [← trimmed] at h
  exact Text.isBlank_head_trim h

private theorem Text.Trimmed.not_blank_getLast {text : Text} (trimmed : text.Trimmed) {c : Char}
    (h : text.getLast? = some c) : Text.isBlank c = false := by
  rw [← trimmed] at h
  exact Text.isBlank_getLast_trim h

private theorem Text.isBlank_of_mem_space {c : Char} (h : c ∈ [' ']) : Text.isBlank c = true := by
  rw [List.mem_singleton.mp h]
  rfl

namespace Settings

private theorem render_eq_flatMap (settings : Settings) :
    settings.render = settings.contents.flatMap (· ++ ['\n']) := by
  have hentries : ∀ entries : List Entry,
      (entries.map Entry.content).flatMap (· ++ ['\n']) = entries.flatMap Entry.line := by
    intro entries
    rw [List.flatMap_map]
    rfl
  have hsection : ∀ part : Section, part.contents.flatMap (· ++ ['\n']) = part.lines := by
    intro part
    rw [Section.contents, List.flatMap_cons, hentries]
    simp [Section.header, Section.lines]
  rw [contents, List.flatMap_append, hentries, List.flatMap_assoc]
  simp only [hsection]
  rfl

end Settings

namespace Entry

variable {entry : Entry}

private theorem WellFormed.head?_content (wf : entry.WellFormed) (rest : Text) :
    (entry.key ++ rest).head? = entry.key.head? :=
  List.head?_append_of_ne_nil _ wf.key_ne_nil

private theorem WellFormed.not_blank_content (wf : entry.WellFormed) {rest : Text} {c : Char}
    (h : (entry.key ++ rest).head? = some c) : Text.isBlank c = false :=
  wf.key_trimmed.not_blank_head ((wf.head?_content rest).symm.trans h)

/-- Of a written entry only the space before an empty value is trimmed. -/
theorem WellFormed.trim_content (wf : entry.WellFormed) :
    ∃ rest, Text.trim entry.content = entry.key ++ (" =".toList ++ rest) ∧
      Text.trim rest = entry.value := by
  by_cases hvalue : entry.value = []
  · refine ⟨[], ?_, by rw [hvalue]; rfl⟩
    have hcontent : entry.content = [] ++ (entry.key ++ " =".toList) ++ [' '] := by
      rw [Entry.content, hvalue]
      simp
    rw [hcontent, Text.trim_pad (by simp) fun _ => Text.isBlank_of_mem_space]
    refine Text.trim_eq_self (fun c hc => wf.not_blank_content hc) ?_
    intro c hc
    rw [List.getLast?_append] at hc
    rw [← Option.some.inj hc]
    decide
  · refine ⟨' ' :: entry.value, ?_, ?_⟩
    · have hcontent : entry.content = entry.key ++ (" =".toList ++ ' ' :: entry.value) := by
        rw [Entry.content]
        simp
      rw [hcontent]
      refine Text.trim_eq_self (fun c hc => wf.not_blank_content hc) ?_
      intro c hc
      rw [← hcontent, Entry.content, List.getLast?_append_of_ne_nil _ hvalue] at hc
      exact wf.value_trimmed.not_blank_getLast hc
    · have hpad : Text.trim ([' '] ++ entry.value ++ []) = Text.trim entry.value :=
        Text.trim_pad (fun _ => Text.isBlank_of_mem_space) (by simp) entry.value
      rw [List.append_nil] at hpad
      exact hpad.trans wf.value_trimmed

theorem WellFormed.assignment (wf : entry.WellFormed) :
    ∃ value, Assignment (Text.trim entry.content) (entry.key ++ [' ']) value ∧
      Text.trim value = entry.value := by
  obtain ⟨rest, htrim, hrest⟩ := wf.trim_content
  refine ⟨rest, ⟨?_, ?_, ?_⟩, hrest⟩
  · rw [htrim]
    simp
  · rw [List.mem_append, not_or]
    exact ⟨fun h => (wf.key_lower '=' h).1 rfl, by decide⟩
  · rw [htrim, wf.head?_content]
    exact wf.key_start.2.2

theorem WellFormed.not_remark (wf : entry.WellFormed) : ¬ Remark (Text.trim entry.content) := by
  obtain ⟨rest, htrim, -⟩ := wf.trim_content
  rw [htrim, Remark, wf.head?_content]
  rintro (hnil | hmark | hmark)
  · exact wf.key_ne_nil (List.append_eq_nil_iff.mp hnil).1
  · exact wf.key_start.1 hmark
  · exact wf.key_start.2.1 hmark

private theorem WellFormed.trim_key (wf : entry.WellFormed) :
    Text.trim (entry.key ++ [' ']) = entry.key := by
  have hpad : Text.trim ([] ++ entry.key ++ [' ']) = Text.trim entry.key :=
    Text.trim_pad (by simp) (fun _ => Text.isBlank_of_mem_space) entry.key
  exact hpad.trans wf.key_trimmed

private theorem WellFormed.lowerAscii_key (wf : entry.WellFormed) :
    Text.lowerAscii entry.key = entry.key := by
  refine Text.lowerAscii_eq_self fun c hc => ?_
  rw [← Bool.not_eq_true]
  exact (wf.key_lower c hc).2.2

private theorem WellFormed.entryOf?_content (wf : entry.WellFormed) :
    entryOf? entry.content = some entry := by
  obtain ⟨value, shape, hvalue⟩ := wf.assignment
  rw [entryOf?, assignment?_of_assignment wf.not_remark shape, wf.trim_key, hvalue]
  simp [wf.lowerAscii_key]

private theorem WellFormed.name?_content (wf : entry.WellFormed) : name? entry.content = none := by
  obtain ⟨value, shape, -⟩ := wf.assignment
  exact name?_eq_none shape.head_ne

private theorem WellFormed.allowed_content (wf : entry.WellFormed) :
    SettingsLine.Allowed entry.content := by
  obtain ⟨value, shape, -⟩ := wf.assignment
  refine .assignment shape ?_
  rw [wf.trim_key]
  exact wf.key_ne_nil

theorem WellFormed.oneLine (wf : entry.WellFormed) :
    '\n' ∉ entry.content ∧ entry.content.getLast? ≠ some '\r' := by
  constructor
  · simp only [Entry.content, List.mem_append, not_or]
    exact ⟨⟨fun h => (wf.key_lower '\n' h).2.1 rfl, by decide⟩, wf.value_oneLine⟩
  · rw [Entry.content]
    by_cases hvalue : entry.value = []
    · rw [hvalue, List.append_nil, List.getLast?_append]
      exact fun hlast => absurd (Option.some.inj hlast) (by decide)
    · rw [List.getLast?_append_of_ne_nil _ hvalue]
      intro hlast
      exact absurd (wf.value_trimmed.not_blank_getLast hlast) (by decide)

end Entry

namespace Section

variable {part : Section}

private theorem trim_header (part : Section) : Text.trim part.header = part.header := by
  refine Text.trim_eq_self ?_ ?_
  · intro c hc
    rw [← Option.some.inj hc]
    decide
  · intro c hc
    rw [Section.header, ← List.cons_append, List.getLast?_append] at hc
    rw [← Option.some.inj hc]
    decide

private theorem WellFormed.header_shape (wf : part.WellFormed) :
    Header (Text.trim part.header) part.name [] :=
  ⟨trim_header part, wf.name_chars.1⟩

private theorem WellFormed.name?_header (wf : part.WellFormed) :
    name? part.header = some part.name :=
  name?_eq_some_iff.mpr ⟨part.name, [], wf.header_shape, wf.name_trimmed⟩

private theorem WellFormed.allowed_header (wf : part.WellFormed) :
    SettingsLine.Allowed part.header := by
  refine .header wf.header_shape ?_ (.inl rfl)
  rw [wf.name_trimmed]
  exact wf.name_ne_nil

theorem WellFormed.oneLine (wf : part.WellFormed) :
    '\n' ∉ part.header ∧ part.header.getLast? ≠ some '\r' := by
  constructor
  · simpa [Section.header] using wf.name_chars.2
  · rw [Section.header, ← List.cons_append, List.getLast?_append]
    exact fun hlast => absurd (Option.some.inj hlast) (by decide)

end Section

namespace Settings

private theorem ofLines_entries_append {entries : List Entry}
    (wf : ∀ entry ∈ entries, entry.WellFormed) (lines : List Text) :
    ofLines (entries.map Entry.content ++ lines) =
      ⟨entries ++ (ofLines lines).shared, (ofLines lines).sections⟩ := by
  induction entries with
  | nil => rfl
  | cons entry rest ih =>
    have hentry : entry.WellFormed := wf entry List.mem_cons_self
    have hrest := ih fun other hother => wf other (List.mem_cons_of_mem entry hother)
    rw [List.map_cons, List.cons_append, ofLines_cons_of_none hentry.name?_content,
      hentry.entryOf?_content, hrest]
    rfl

private theorem ofLines_sections {sections : List Section}
    (wf : ∀ part ∈ sections, part.WellFormed) :
    ofLines (sections.flatMap Section.contents) = ⟨[], sections⟩ := by
  induction sections with
  | nil => rfl
  | cons part rest ih =>
    have hpart : part.WellFormed := wf part List.mem_cons_self
    have hrest := ih fun other hother => wf other (List.mem_cons_of_mem part hother)
    rw [List.flatMap_cons, Section.contents, List.cons_append,
      ofLines_cons_of_header hpart.name?_header, ofLines_entries_append hpart.entries, hrest,
      List.append_nil]

variable {settings : Settings}

private theorem WellFormed.ofLines_contents (wf : settings.WellFormed) :
    ofLines settings.contents = settings := by
  rw [contents, ofLines_entries_append wf.shared, ofLines_sections wf.sections, List.append_nil]

private theorem mem_contents_iff {line : Text} :
    line ∈ settings.contents ↔ (∃ entry ∈ settings.shared, entry.content = line) ∨
      ∃ part ∈ settings.sections,
        line = part.header ∨ ∃ entry ∈ part.entries, entry.content = line := by
  simp [contents, Section.contents]

private theorem WellFormed.allowed_contents (wf : settings.WellFormed) :
    Settings.Allowed settings.contents := by
  rw [allowed_iff_nodup]
  constructor
  · intro line hline
    rcases mem_contents_iff.mp hline with
      ⟨entry, hentry, rfl⟩ | ⟨part, hpart, rfl | ⟨entry, hentry, rfl⟩⟩
    · exact (wf.shared entry hentry).allowed_content
    · exact (wf.sections part hpart).allowed_header
    · exact ((wf.sections part hpart).entries entry hentry).allowed_content
  · rw [← repositories_ofLines, wf.ofLines_contents]
    exact wf.names

private theorem WellFormed.lines_render (wf : settings.WellFormed) :
    Text.lines settings.render = settings.contents := by
  rw [render_eq_flatMap, Text.lines_flatMap]
  intro line hline
  rcases mem_contents_iff.mp hline with
    ⟨entry, hentry, rfl⟩ | ⟨part, hpart, rfl | ⟨entry, hentry, rfl⟩⟩
  · exact (wf.shared entry hentry).oneLine
  · exact (wf.sections part hpart).oneLine
  · exact ((wf.sections part hpart).entries entry hentry).oneLine

private theorem WellFormed.parse_render (wf : settings.WellFormed) (file? : Option FileName) :
    parse settings.render file? = .ok settings := by
  rw [parse_eq_ok_iff, wf.lines_render, wf.ofLines_contents]
  exact ⟨wf.allowed_contents, rfl⟩

private theorem leading_subset (lines : List Text) : leading lines ⊆ lines.filterMap entryOf? :=
  ((List.takeWhile_sublist _).filterMap entryOf?).subset

private theorem entries_subset {lines : List Text} {part : Section} (h : part ∈ parts lines) :
    part.entries ⊆ lines.filterMap entryOf? := by
  induction lines with
  | nil => exact absurd h List.not_mem_nil
  | cons line rest ih =>
    have hrest : rest.filterMap entryOf? ⊆ (line :: rest).filterMap entryOf? :=
      ((List.sublist_cons_self line rest).filterMap entryOf?).subset
    rw [parts] at h
    split at h
    next name hname =>
      rcases List.mem_cons.mp h with rfl | hpart
      · exact List.Subset.trans (leading_subset rest) hrest
      · exact List.Subset.trans (ih hpart) hrest
    next => exact List.Subset.trans (ih h) hrest

private theorem key_ne_nil_of_allowed {line key value : Text} (allowed : SettingsLine.Allowed line)
    (speaks : ¬ Remark (Text.trim line)) (shape : Assignment (Text.trim line) key value) :
    Text.trim key ≠ [] := by
  cases allowed with
  | remark silent => exact absurd silent speaks
  | header header _ _ => exact absurd (by rw [header.content_eq]; rfl) shape.head_ne
  | assignment other named =>
    have hother := assignment?_of_assignment speaks other
    rw [assignment?_of_assignment speaks shape] at hother
    rw [(Prod.mk.inj (Option.some.inj hother)).1]
    exact named

private theorem head?_trim_key {line key value : Text}
    (shape : Assignment (Text.trim line) key value) (named : Text.trim key ≠ []) :
    (Text.trim key).head? = (Text.trim line).head? := by
  have hne : key ≠ [] := fun heq => named (by rw [heq]; rfl)
  have hfirst : (Text.trim line).head? = key.head? := by
    rw [shape.content_eq, List.head?_append_of_ne_nil _ hne]
  rw [hfirst]
  exact Text.head?_trim (fun c hc => Text.isBlank_head_trim (hfirst.trans hc)) named

private theorem entry_wellFormed {line : Text} {entry : Entry} (allowed : SettingsLine.Allowed line)
    (oneLine : '\n' ∉ line) (h : entryOf? line = some entry) : entry.WellFormed := by
  obtain ⟨pair, hpair, rfl⟩ := Option.map_eq_some_iff.mp h
  obtain ⟨key, value, speaks, shape, rfl⟩ := assignment?_eq_some_iff.mp hpair
  have named : Text.trim key ≠ [] := key_ne_nil_of_allowed allowed speaks shape
  have hfeed : '\n' ∉ key ∧ '\n' ∉ value := by
    have hcontent : '\n' ∉ key ++ '=' :: value := by
      rw [← shape.content_eq]
      exact fun hmem => oneLine (Text.mem_of_mem_trim hmem)
    rw [List.mem_append, List.mem_cons, not_or, not_or] at hcontent
    exact ⟨hcontent.1, hcontent.2.2⟩
  -- lower case gives letters only, so a mark in the key is a mark of the line
  have hmark : ∀ mark : Char, mark.toNat < 97 → mark ∈ Text.lowerAscii (Text.trim key) →
      mark ∈ key :=
    fun mark hsmall hmem => Text.mem_of_mem_trim (Text.mem_of_mem_lowerAscii hmem hsmall)
  have hstart : ∀ mark : Char, mark.toNat < 97 →
      (Text.lowerAscii (Text.trim key)).head? = some mark →
      (Text.trim line).head? = some mark := by
    intro mark hsmall hhead
    rw [← head?_trim_key shape named]
    exact Text.head?_of_head?_lowerAscii hhead hsmall
  exact {
    key_ne_nil := fun heq => named (List.map_eq_nil_iff.mp heq)
    key_trimmed := by rw [Text.Trimmed, Text.trim_lowerAscii, Text.trim_trim]
    key_lower := by
      intro c hc
      refine ⟨?_, ?_, ?_⟩
      · rintro rfl
        exact shape.not_mem (hmark '=' (by decide) hc)
      · rintro rfl
        exact hfeed.1 (hmark '\n' (by decide) hc)
      · rw [Text.isUpper_of_mem_lowerAscii hc]
        exact Bool.false_ne_true
    key_start := ⟨fun heq => speaks (.inr (.inl (hstart '#' (by decide) heq))),
      fun heq => speaks (.inr (.inr (hstart ';' (by decide) heq))),
      fun heq => shape.head_ne (hstart '[' (by decide) heq)⟩
    value_trimmed := Text.trim_trim value
    value_oneLine := fun hmem => hfeed.2 (Text.mem_of_mem_trim hmem) }

private theorem name_wellFormed {line name : Text} (allowed : SettingsLine.Allowed line)
    (oneLine : '\n' ∉ line) (h : name? line = some name) :
    name ≠ [] ∧ name.Trimmed ∧ ']' ∉ name ∧ '\n' ∉ name := by
  obtain ⟨inside, rest, shape, rfl⟩ := name?_eq_some_iff.mp h
  refine ⟨?_, Text.trim_trim inside, fun hmem => shape.not_mem (Text.mem_of_mem_trim hmem), ?_⟩
  · cases allowed with
    | remark silent => exact absurd silent shape.not_remark
    | header other named _ =>
      rw [name?_eq_some_iff.mpr ⟨_, _, other, rfl⟩] at h
      rw [← Option.some.inj h]
      exact named
    | assignment other _ => exact absurd (by rw [shape.content_eq]; rfl) other.head_ne
  · intro hmem
    refine oneLine (Text.mem_of_mem_trim ?_)
    rw [shape.content_eq]
    exact List.mem_cons_of_mem _ (List.mem_append_left _ (Text.mem_of_mem_trim hmem))

private theorem ofLines_wellFormed {lines : List Text} (allowed : Settings.Allowed lines)
    (oneLine : ∀ line ∈ lines, '\n' ∉ line) : (ofLines lines).WellFormed := by
  have hentry : ∀ entry ∈ lines.filterMap entryOf?, entry.WellFormed := by
    intro entry hentry
    obtain ⟨line, hline, hread⟩ := List.mem_filterMap.mp hentry
    exact entry_wellFormed (allowed.each line hline) (oneLine line hline) hread
  have hnames : (ofLines lines).repositories = lines.filterMap name? := repositories_ofLines lines
  refine ⟨fun entry h => hentry entry (leading_subset lines h), ?_, ?_⟩
  · intro part hpart
    have hname : part.name ∈ lines.filterMap name? := by
      rw [← hnames]
      exact List.mem_map_of_mem hpart
    obtain ⟨line, hline, hread⟩ := List.mem_filterMap.mp hname
    obtain ⟨named, trimmed, hclosing, hfeed⟩ :=
      name_wellFormed (allowed.each line hline) (oneLine line hline) hread
    exact ⟨named, trimmed, ⟨hclosing, hfeed⟩, fun entry h => hentry entry (entries_subset hpart h)⟩
  · rw [hnames]
    exact (allowed_iff_nodup.mp allowed).2

/-- Well-formed settings are read back from their written form, and every file that is read holds
well-formed settings; so writing and reading again changes nothing. -/
theorem parse_render_of_wellFormed (file? : Option FileName) :
    (∀ settings : Settings, settings.WellFormed → parse settings.render file? = .ok settings) ∧
      ∀ text settings, parse text file? = .ok settings →
        settings.WellFormed ∧ parse settings.render file? = .ok settings := by
  constructor
  · intro settings wf
    exact wf.parse_render file?
  · intro text settings parsed
    obtain ⟨allowed, rfl⟩ := parse_eq_ok_iff.mp parsed
    have wf : (ofLines (Text.lines text)).WellFormed :=
      ofLines_wellFormed allowed fun _ hline => Text.feed_not_mem_of_mem_lines hline
    exact ⟨wf, wf.parse_render file?⟩

theorem parse_render_of_wellFormed_marks :
    ∃ settings : Settings,
      settings.repositories = ["#[x".toList] ∧
      parse "A b =\r\n[ #[x ] ; c\nK = =v # ]".toList none = .ok settings ∧
      settings.WellFormed ∧ parse settings.render none = .ok settings := by
  have parsed : parse "A b =\r\n[ #[x ] ; c\nK = =v # ]".toList none =
      .ok ⟨[⟨"a b".toList, []⟩], [⟨"#[x".toList, [⟨"k".toList, "=v # ]".toList⟩]⟩]⟩ := by
    decide +kernel
  obtain ⟨hwritten, hread⟩ := parse_render_of_wellFormed none
  obtain ⟨wf, -⟩ := hread _ _ parsed
  exact ⟨_, rfl, parsed, wf, hwritten _ wf⟩

end Settings

end PathFilter
