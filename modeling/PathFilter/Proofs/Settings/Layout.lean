import Mathlib.Logic.Relation
import PathFilter.Proofs.PatternFile.RoundTrip
import PathFilter.Proofs.Settings.Reading
import PathFilter.Settings.Layout

/-!
Settings do not depend on the layout of their file. What a file means can be read off the pieces
between its line feeds: each says nothing, or is one header or one entry. An edit of the layout
changes no piece but for its blanks, a comment or the case of a key, and puts in only pieces that
say nothing.
-/

set_option autoImplicit false
set_option relaxedAutoImplicit false

namespace PathFilter

open SettingsLine

namespace SettingsLine

/-- Two lines may stand in each other's place. -/
structure Alike (line other : Text) : Prop where
  allowed_iff : Allowed line ↔ Allowed other
  name_eq : name? line = name? other
  entry_eq : entryOf? line = entryOf? other

variable {line other name rest part value : Text}

theorem Alike.trans {third : Text} (h : Alike line other) (h' : Alike other third) :
    Alike line third :=
  ⟨h.allowed_iff.trans h'.allowed_iff, h.name_eq.trans h'.name_eq, h.entry_eq.trans h'.entry_eq⟩

private theorem Allowed.of_trim_eq (allowed : Allowed line) (h : Text.trim line = Text.trim other) :
    Allowed other := by
  cases allowed with
  | remark silent => exact .remark (h ▸ silent)
  | header shape named ended => exact .header (h ▸ shape) named ended
  | assignment shape named => exact .assignment (h ▸ shape) named

private theorem alike_of_trim_eq (h : Text.trim line = Text.trim other) : Alike line other :=
  ⟨⟨fun allowed => allowed.of_trim_eq h, fun allowed => allowed.of_trim_eq h.symm⟩,
    by rw [name?, h, name?], by rw [entryOf?, assignment?, h, entryOf?, assignment?]⟩

private theorem entryOf?_of_remark (silent : Remark (Text.trim line)) : entryOf? line = none := by
  rw [entryOf?, assignment?_of_remark silent]
  rfl

private theorem Header.eq_of_header {content other more : Text} (shape : Header content name rest)
    (shape' : Header content other more) : name = other ∧ rest = more := by
  have hparts : name ++ ']' :: rest = other ++ ']' :: more := by
    have hcontent := shape.content_eq.symm.trans shape'.content_eq
    exact (List.cons.inj hcontent).2
  exact Text.append_cons_inj_of_first shape.not_mem shape'.not_mem hparts

private theorem Header.head?_eq {content : Text} (shape : Header content name rest) :
    content.head? = some '[' := by
  rw [shape.content_eq, List.head?_cons]

/-- What a header is, whether or not it is allowed. -/
theorem header_iff (shape : Header (Text.trim line) name rest) :
    (Allowed line ↔ Text.trim name ≠ [] ∧ Remark (Text.trim rest)) ∧
      name? line = some (Text.trim name) ∧ entryOf? line = none := by
  refine ⟨⟨?_, fun h => .header shape h.1 h.2⟩, name?_eq_some_iff.mpr ⟨name, rest, shape, rfl⟩, ?_⟩
  · intro allowed
    cases allowed with
    | remark silent => exact absurd silent shape.not_remark
    | header shape' named ended =>
      obtain ⟨rfl, rfl⟩ := shape.eq_of_header shape'
      exact ⟨named, ended⟩
    | assignment shape' => exact absurd shape.head?_eq shape'.head_ne
  · simp [entryOf?, assignment?, shape.head?_eq]

private theorem assignment_iff (speaks : ¬ Remark (Text.trim line))
    (shape : Assignment (Text.trim line) part value) :
    (Allowed line ↔ Text.trim part ≠ []) ∧ name? line = none ∧
      entryOf? line = some ⟨Text.lowerAscii (Text.trim part), Text.trim value⟩ := by
  have hassignment := assignment?_of_assignment speaks shape
  refine ⟨⟨?_, fun named => .assignment shape named⟩, name?_eq_none shape.head_ne, ?_⟩
  · intro allowed
    cases allowed with
    | remark silent => exact absurd silent speaks
    | header shape' => exact absurd shape'.head?_eq shape.head_ne
    | assignment shape' named =>
      rw [assignment?_of_assignment speaks shape', Option.some.injEq, Prod.mk.injEq] at hassignment
      rw [← hassignment.1]
      exact named
  · rw [entryOf?, hassignment]
    rfl

end SettingsLine

namespace Settings

variable {line other part value name rest indent padding : Text}

instance : DecidablePred Padding := fun padding =>
  decidable_of_iff (padding.all (fun c => Text.isBlank c && c != '\n') = true) (by simp [Padding])

instance : DecidablePred KeyPart := fun part =>
  decidable_of_iff
    ('=' ∉ part ∧ (Text.trimStart part).head?.all (fun c => c ≠ '[' ∧ c ≠ '#' ∧ c ≠ ';') = true)
    ⟨fun h => ⟨h.1, by simpa [Option.all_eq_true] using h.2⟩,
      fun h => ⟨h.noEquals, by simpa [Option.all_eq_true] using h.start⟩⟩

theorem Padding.isBlank (h : Padding padding) : ∀ c ∈ padding, Text.isBlank c = true :=
  fun c hc => (h c hc).1

theorem Padding.oneLine (h : Padding padding) : '\n' ∉ padding := fun hfeed => (h _ hfeed).2 rfl

theorem padding_nil : Padding [] := fun _ hc => absurd hc List.not_mem_nil

private theorem padding_return : Padding ['\r'] := fun c hc => by
  rw [List.mem_singleton.mp hc]
  decide

private theorem Padding.trimStart_eq_nil (h : Padding padding) : Text.trimStart padding = [] :=
  List.dropWhile_eq_nil_iff.mpr h.isBlank

theorem KeyPart.shape (key : KeyPart part) (value : Text) :
    ¬ Remark (Text.trim (part ++ '=' :: value)) ∧
      Assignment (Text.trim (part ++ '=' :: value)) (Text.trimStart part) (Text.trimEnd value) := by
  have hcontent :
      Text.trim (part ++ '=' :: value) = Text.trimStart part ++ '=' :: Text.trimEnd value :=
    Text.trim_append_cons (by decide) part value
  have hequals : '=' ∉ Text.trimStart part := fun h =>
    key.noEquals ((List.dropWhile_suffix Text.isBlank).subset h)
  have hhead : ∀ c, (Text.trim (part ++ '=' :: value)).head? = some c →
      c ≠ '[' ∧ c ≠ '#' ∧ c ≠ ';' := by
    intro c hc
    rw [hcontent] at hc
    cases hpart : Text.trimStart part with
    | nil =>
      rw [hpart, List.nil_append, List.head?_cons, Option.some.injEq] at hc
      rw [← hc]
      decide
    | cons first others =>
      rw [hpart] at hc
      exact key.start c (hpart ▸ hc)
  refine ⟨?_, hcontent, hequals, fun h => (hhead _ h).1 rfl⟩
  rintro (hnil | hnumber | hsemicolon)
  · simp [hcontent] at hnil
  · exact (hhead _ hnumber).2.1 rfl
  · exact (hhead _ hsemicolon).2.2 rfl

private theorem KeyPart.line_iff (key : KeyPart part) (value : Text) :
    (SettingsLine.Allowed (part ++ '=' :: value) ↔ Text.trim part ≠ []) ∧
      name? (part ++ '=' :: value) = none ∧
      entryOf? (part ++ '=' :: value) =
        some ⟨Text.lowerAscii (Text.trim part), Text.trim value⟩ := by
  obtain ⟨speaks, shape⟩ := key.shape value
  have hline := assignment_iff speaks shape
  rwa [Text.trim_trimStart, Text.trim_trimEnd] at hline

theorem KeyPart.alike {otherValue : Text} (key : KeyPart part) (otherKey : KeyPart other)
    (sameKey : Text.lowerAscii (Text.trim part) = Text.lowerAscii (Text.trim other))
    (sameValue : Text.trim value = Text.trim otherValue) :
    Alike (part ++ '=' :: value) (other ++ '=' :: otherValue) := by
  obtain ⟨hallowed, hname, hentry⟩ := key.line_iff value
  obtain ⟨hallowed', hname', hentry'⟩ := otherKey.line_iff otherValue
  have hempty : Text.trim part = [] ↔ Text.trim other = [] := by
    rw [← List.map_eq_nil_iff (f := Char.toLower), ← Text.lowerAscii, sameKey, Text.lowerAscii,
      List.map_eq_nil_iff]
  refine ⟨?_, hname.trans hname'.symm, ?_⟩
  · rw [hallowed, hallowed', ne_eq, hempty]
  · rw [hentry, hentry', sameKey, sameValue]

theorem Padding.header (h : Padding indent) (closed : ']' ∉ name) (rest : Text) :
    Header (Text.trim (indent ++ '[' :: (name ++ ']' :: rest))) name (Text.trimEnd rest) := by
  have hend : Text.trimEnd (name ++ ']' :: rest) = name ++ ']' :: Text.trimEnd rest :=
    Text.trimEnd_append_cons (by decide) name rest
  refine ⟨?_, closed⟩
  rw [Text.trim_append_cons (by decide), h.trimStart_eq_nil, hend, List.nil_append]

theorem Padding.alike {otherName otherRest : Text} (h : Padding indent) (closed : ']' ∉ name)
    (otherClosed : ']' ∉ otherName) (sameName : Text.trim name = Text.trim otherName)
    (sameRest : Remark (Text.trim rest) ↔ Remark (Text.trim otherRest)) :
    Alike (indent ++ '[' :: (name ++ ']' :: rest))
      (indent ++ '[' :: (otherName ++ ']' :: otherRest)) := by
  obtain ⟨hallowed, hname, hentry⟩ := header_iff (h.header closed rest)
  obtain ⟨hallowed', hname', hentry'⟩ := header_iff (h.header otherClosed otherRest)
  rw [Text.trim_trimEnd] at hallowed hallowed'
  refine ⟨?_, ?_, hentry.trans hentry'.symm⟩
  · rw [hallowed, hallowed', sameName, sameRest]
  · rw [hname, hname', sameName]

theorem KeyPart.append (key : KeyPart part) (h : Padding padding) : KeyPart (part ++ padding) := by
  constructor
  · intro hequals
    rcases List.mem_append.mp hequals with hequals | hequals
    · exact key.noEquals hequals
    · exact absurd (h.isBlank _ hequals) (by decide)
  · intro c hc
    rw [Text.trimStart, List.dropWhile_append, ← Text.trimStart, ← Text.trimStart,
      h.trimStart_eq_nil] at hc
    split_ifs at hc with hblank
    · exact absurd hc (by simp)
    · rw [List.isEmpty_iff] at hblank
      obtain ⟨first, others, hpart⟩ := List.exists_cons_of_ne_nil hblank
      rw [hpart] at hc
      exact key.start c (hpart ▸ hc)

private theorem KeyPart.of_lowerAscii (key : KeyPart part)
    (same : Text.lowerAscii part = Text.lowerAscii other) : KeyPart other := by
  -- none of the marks is a letter, so a mark in one of the texts is in the other one too
  have hmark : ∀ mark : Char, mark.toNat < 97 → mark.toLower = mark →
      (Text.trimStart other).head? = some mark → (Text.trimStart part).head? = some mark := by
    intro mark hmark hlower hhead
    refine Text.head?_of_head?_lowerAscii ?_ hmark
    rw [← Text.trimStart_lowerAscii, same, Text.trimStart_lowerAscii, Text.lowerAscii,
      List.head?_map, hhead, Option.map_some, hlower]
  constructor
  · intro hequals
    have hlower : '=' ∈ Text.lowerAscii other := List.mem_map.mpr ⟨'=', hequals, by decide⟩
    exact key.noEquals (Text.mem_of_mem_lowerAscii (same ▸ hlower) (by decide))
  · intro c hc
    refine ⟨?_, ?_, ?_⟩
    · rintro rfl
      exact (key.start _ (hmark _ (by decide) (by decide) hc)).1 rfl
    · rintro rfl
      exact (key.start _ (hmark _ (by decide) (by decide) hc)).2.1 rfl
    · rintro rfl
      exact (key.start _ (hmark _ (by decide) (by decide) hc)).2.2 rfl

private theorem Padding.trim_append (h : Padding padding) (text : Text) :
    Text.trim (text ++ padding) = Text.trim text := by
  have hpad := Text.trim_pad padding_nil.isBlank h.isBlank text
  rwa [List.nil_append] at hpad

private theorem Padding.trim_cons (h : Padding padding) (text : Text) :
    Text.trim (padding ++ text) = Text.trim text := by
  have hpad := Text.trim_pad h.isBlank padding_nil.isBlank text
  rwa [List.append_nil] at hpad

private theorem remark_trim_of_mark {mark : Char} (hmark : mark = '#' ∨ mark = ';') (words : Text) :
    Remark (Text.trim (mark :: words)) :=
  isComment_eq_true_iff.mp (PatternFile.isComment_trim_of_mark hmark words)

theorem SilentLine.remark (silent : SilentLine line) : Remark (Text.trim line) := by
  cases silent with
  | blank h =>
    have hnil : Text.trim line = [] := by
      have htrim := h.trim_append []
      rwa [List.nil_append] at htrim
    exact .inl hnil
  | comment h hmark =>
    rw [h.trim_cons]
    exact remark_trim_of_mark hmark _

theorem SilentLine.oneLine (silent : SilentLine line) : '\n' ∉ line := by
  cases silent with
  | blank h => exact h.oneLine
  | comment h hmark hwords =>
    intro hmem
    rcases List.mem_append.mp hmem with hmem | hmem
    · exact h.oneLine hmem
    · rcases List.mem_cons.mp hmem with rfl | hmem
      · exact absurd hmark (by decide)
      · exact hwords hmem

theorem LineEdit.alike (edit : LineEdit line other) : Alike line other := by
  cases edit with
  | start h => exact alike_of_trim_eq (h.trim_cons line).symm
  | finish h => exact alike_of_trim_eq (h.trim_append line).symm
  | aroundEquals key hbefore hafter =>
    exact key.alike (key.append hbefore) (by rw [hbefore.trim_append]) (hafter.trim_cons _).symm
  | keyCase key same =>
    refine key.alike (key.of_lowerAscii same) ?_ rfl
    rw [← Text.trim_lowerAscii, same, Text.trim_lowerAscii]
  | @insideBrackets indent name rest before after h closed hbefore hafter =>
    have hname : Text.trim (before ++ name ++ after) = Text.trim name :=
      Text.trim_pad hbefore.isBlank hafter.isBlank name
    refine h.alike closed ?_ hname.symm Iff.rfl
    intro hmem
    simp only [List.mem_append] at hmem
    rcases hmem with (hmem | hmem) | hmem
    · exact absurd (hbefore.isBlank _ hmem) (by decide)
    · exact closed hmem
    · exact absurd (hafter.isBlank _ hmem) (by decide)
  | afterBracket h closed hpadding =>
    exact h.alike closed closed rfl (by rw [hpadding.trim_cons])
  | @trailingComment indent name gap words mark h closed hgap hmark =>
    have hnone : Remark (Text.trim gap) := SilentLine.remark (.blank hgap)
    have hcomment : Remark (Text.trim (gap ++ mark :: words)) := by
      rw [hgap.trim_cons]
      exact remark_trim_of_mark hmark words
    exact h.alike closed closed rfl (iff_of_true hnone hcomment)

private theorem ofLines_cons_of_remark (silent : Remark (Text.trim line)) (lines : List Text) :
    ofLines (line :: lines) = ofLines lines := by
  rw [ofLines_cons_of_none (name?_eq_none silent.head?_ne), entryOf?_of_remark silent]
  rfl

/-- Lines that are allowed together, one by one, and that mean the same. -/
structure SameReading (lines others : List Text) : Prop where
  each_iff : (∀ line ∈ lines, SettingsLine.Allowed line) ↔
    ∀ line ∈ others, SettingsLine.Allowed line
  ofLines_eq : ofLines lines = ofLines others

variable {lines others : List Text}

theorem SameReading.refl (lines : List Text) : SameReading lines lines := ⟨Iff.rfl, rfl⟩

theorem SameReading.cons (same : SameReading lines others) (alike : Alike line other) :
    SameReading (line :: lines) (other :: others) := by
  constructor
  · rw [List.forall_mem_cons, List.forall_mem_cons, alike.allowed_iff, same.each_iff]
  · cases hline : name? line with
    | some name =>
      rw [ofLines_cons_of_header hline, ofLines_cons_of_header (alike.name_eq ▸ hline),
        same.ofLines_eq]
    | none =>
      rw [ofLines_cons_of_none hline, ofLines_cons_of_none (alike.name_eq ▸ hline), alike.entry_eq,
        same.ofLines_eq]

private theorem SameReading.append_left (same : SameReading lines others) (before : List Text) :
    SameReading (before ++ lines) (before ++ others) := by
  induction before with
  | nil => exact same
  | cons line before ih => exact ih.cons ⟨Iff.rfl, rfl, rfl⟩

private theorem SameReading.cons_silent (same : SameReading lines others)
    (silent : Remark (Text.trim line)) : SameReading lines (line :: others) := by
  constructor
  · rw [List.forall_mem_cons, same.each_iff, and_iff_right (SettingsLine.Allowed.remark silent)]
  · rw [ofLines_cons_of_remark silent, same.ofLines_eq]

private theorem SameReading.allowed_iff (same : SameReading lines others) :
    Settings.Allowed lines ↔ Settings.Allowed others := by
  rw [allowed_iff_nodup, allowed_iff_nodup, ← repositories_ofLines, ← repositories_ofLines,
    same.each_iff, same.ofLines_eq]

private theorem alike_dropReturn (line : Text) : Alike (Text.dropReturn line) line := by
  rw [Text.dropReturn]
  split_ifs with hreturn
  · obtain ⟨front, rfl⟩ := List.getLast?_eq_some_iff.mp hreturn
    rw [List.dropLast_concat]
    exact alike_of_trim_eq (padding_return.trim_append front).symm
  · exact ⟨Iff.rfl, rfl, rfl⟩

/-- The lines of a text mean what the pieces between its line feeds mean. -/
theorem sameReading_lines (text : Text) :
    SameReading (Text.lines text) (Text.cut (· == '\n') text) := by
  induction text using Text.lines_induction with
  | last line hline =>
    rw [Text.lines_of_no_feed hline, Text.cut_of_not_mem hline]
    split_ifs with hempty
    · rw [List.isEmpty_iff.mp hempty]
      exact (SameReading.refl []).cons_silent (.inl rfl)
    · exact .refl [line]
  | ended line rest hline ih =>
    rw [Text.lines_append_feed hline, Text.cut_append_mark hline]
    exact ih.cons (alike_dropReturn line)

private theorem parse_eq_ok_iff_cut {text : Text} {file? : Option FileName} {settings : Settings} :
    parse text file? = .ok settings ↔
      Settings.Allowed (Text.cut (· == '\n') text) ∧
        settings = ofLines (Text.cut (· == '\n') text) := by
  rw [parse_eq_ok_iff, (sameReading_lines text).allowed_iff, (sameReading_lines text).ofLines_eq]

private theorem AtLineStart.exists_cut {before : Text} (start : AtLineStart before) :
    ∃ pieces, ∀ rest, Text.cut (· == '\n') (before ++ rest) =
      pieces ++ Text.cut (· == '\n') rest := by
  rcases start with rfl | hlast
  · exact ⟨[], fun _ => rfl⟩
  · obtain ⟨front, rfl⟩ := List.getLast?_eq_some_iff.mp hlast
    refine ⟨Text.cut (· == '\n') front, fun rest => ?_⟩
    rw [List.append_assoc, List.singleton_append]
    exact Text.cut_append _ front rest '\n' rfl

private theorem AtLineEnd.exists_cut {after : Text} (finish : AtLineEnd after) :
    ∃ ending pieces, Padding ending ∧ ∀ line, '\n' ∉ line →
      Text.cut (· == '\n') (line ++ after) = (line ++ ending) :: pieces := by
  cases finish with
  | nil =>
    refine ⟨[], [], padding_nil, fun line hline => ?_⟩
    rw [List.append_nil, Text.cut_of_not_mem hline]
  | @feed rest =>
    refine ⟨[], Text.cut (· == '\n') rest, padding_nil, fun line hline => ?_⟩
    rw [List.append_nil, Text.cut_append_mark hline]
  | @both rest =>
    refine ⟨['\r'], Text.cut (· == '\n') rest, padding_return, fun line hline => ?_⟩
    have hline' : '\n' ∉ line ++ ['\r'] := by simp [hline]
    rw [← List.singleton_append, ← List.append_assoc, Text.cut_append_mark hline']

private theorem exists_lastLine (text : Text) :
    ∃ before line, text = before ++ line ∧ AtLineStart before ∧ '\n' ∉ line := by
  induction text using Text.lines_induction with
  | last line hline => exact ⟨[], line, rfl, .inl rfl, hline⟩
  | ended first rest _ ih =>
    obtain ⟨before, line, rfl, start, hline⟩ := ih
    refine ⟨first ++ '\n' :: before, line, by simp, ?_, hline⟩
    rcases start with rfl | hlast
    · exact .inr (by simp)
    · exact .inr (by simp [List.getLast?_append, List.getLast?_cons, hlast])

private theorem sameReading_inLine {before after : Text} (start : AtLineStart before)
    (finish : AtLineEnd after) (oneLine : '\n' ∉ line) (otherOneLine : '\n' ∉ other)
    (edit : LineEdit line other) :
    SameReading (Text.cut (· == '\n') (before ++ (line ++ after)))
      (Text.cut (· == '\n') (before ++ (other ++ after))) := by
  obtain ⟨pieces, hpieces⟩ := start.exists_cut
  obtain ⟨ending, others, hending, hothers⟩ := finish.exists_cut
  rw [hpieces, hpieces, hothers line oneLine, hothers other otherOneLine]
  refine ((SameReading.refl others).cons ?_).append_left pieces
  exact (alike_of_trim_eq (hending.trim_append line)).trans
    (edit.alike.trans (alike_of_trim_eq (hending.trim_append other).symm))

private theorem LayoutEdit.sameReading {text edited : Text} (edit : LayoutEdit text edited) :
    SameReading (Text.cut (· == '\n') text) (Text.cut (· == '\n') edited) := by
  cases edit with
  | @insertLine before line after start silent =>
    obtain ⟨pieces, hpieces⟩ := start.exists_cut
    rw [hpieces, hpieces, Text.cut_append_mark silent.oneLine]
    exact ((SameReading.refl _).cons_silent silent.remark).append_left pieces
  | appendLine silent =>
    rw [Text.cut_append _ text _ '\n' rfl, Text.cut_of_not_mem silent.oneLine]
    have hline := ((SameReading.refl []).cons_silent silent.remark).append_left
      (Text.cut (· == '\n') text)
    rwa [List.append_nil] at hline
  | @lineEnd before after =>
    obtain ⟨front, line, rfl, start, oneLine⟩ := exists_lastLine before
    have hreturn : '\n' ∉ line ++ ['\r'] := by simp [oneLine]
    have hedit :=
      sameReading_inLine start (@AtLineEnd.feed after) oneLine hreturn (.finish padding_return)
    rw [List.append_assoc line] at hedit
    rw [List.append_assoc, List.append_assoc]
    exact hedit
  | inLine start finish oneLine otherOneLine edit =>
    exact sameReading_inLine start finish oneLine otherOneLine edit

private theorem size_ofLines {lines : List Text}
    (each : ∀ line ∈ lines, SettingsLine.Allowed line) :
    (ofLines lines).size = (lines.filter fun line => !Text.isComment (Text.trim line)).length := by
  induction lines with
  | nil => rfl
  | cons line rest ih =>
    obtain ⟨hline, hrest⟩ := List.forall_mem_cons.mp each
    have ih := ih hrest
    by_cases silent : Remark (Text.trim line)
    · rw [ofLines_cons_of_remark silent, List.filter_cons, isComment_eq_true_iff.mpr silent]
      exact ih
    · have hspeaks : Text.isComment (Text.trim line) = false :=
        Bool.eq_false_iff.mpr (mt isComment_eq_true_iff.mp silent)
      have hsize : (ofLines (line :: rest)).size = (ofLines rest).size + 1 := by
        cases hline with
        | remark h => exact absurd h silent
        | header shape =>
          rw [ofLines_cons_of_header (header_iff shape).2.1]
          simp only [size, List.length_nil, List.flatMap_cons, List.length_append, List.length_cons]
          omega
        | assignment shape =>
          obtain ⟨-, hname, hentry⟩ := assignment_iff silent shape
          rw [ofLines_cons_of_none hname, hentry]
          simp only [size, Option.toList_some, List.singleton_append, List.length_cons]
          omega
      rw [hsize, ih, List.filter_cons, hspeaks]
      rfl

private theorem parse_entry (key : KeyPart part) (named : Text.trim part ≠ [])
    (oneLine : '\n' ∉ part ++ '=' :: value) (file? : Option FileName) :
    parse (part ++ '=' :: value) file? =
      .ok { shared := [⟨Text.lowerAscii (Text.trim part), Text.trim value⟩] } := by
  obtain ⟨hallowed, hname, hentry⟩ := key.line_iff value
  rw [parse_eq_ok_iff_cut, Text.cut_of_not_mem oneLine]
  refine ⟨⟨?_, List.pairwise_singleton _ _⟩, ?_⟩
  · intro line hline
    rw [List.mem_singleton.mp hline]
    exact hallowed.mpr named
  · rw [ofLines_cons_of_none hname, hentry]
    rfl

/-- Texts that differ in their layout only are both read as settings or both refused, and if they
are read their settings are the same. A lone carriage return does not separate entries, as it does
in a pattern file: there are as many entries and headers as pieces between line feeds that say
something, and a key and a value reach from the one line feed to the next. -/
theorem parse_of_layout {text edited : Text} (edits : Relation.EqvGen LayoutEdit text edited)
    (file? : Option FileName) :
    (∀ settings, parse text file? = .ok settings ↔ parse edited file? = .ok settings) ∧
      (∀ settings, parse text file? = .ok settings → settings.size =
        ((List.splitOn '\n' text).filter fun piece => !Text.isComment (Text.trim piece)).length) ∧
      (∀ part value, KeyPart part → Text.trim part ≠ [] → '\n' ∉ part ++ '=' :: value →
        parse (part ++ '=' :: value) file? =
          .ok { shared := [⟨Text.lowerAscii (Text.trim part), Text.trim value⟩] }) ∧
      ∀ left right, PatternFile.patterns (left ++ '\r' :: right) =
        PatternFile.patterns left ++ PatternFile.patterns right := by
  refine ⟨?_, ?_, fun part value key named oneLine => parse_entry key named oneLine file?,
    fun left right => PatternFile.patterns_append_mark left right (by decide)⟩
  · induction edits with
    | rel text edited edit =>
      intro settings
      rw [parse_eq_ok_iff_cut, parse_eq_ok_iff_cut, edit.sameReading.allowed_iff,
        edit.sameReading.ofLines_eq]
    | refl text => exact fun _ => Iff.rfl
    | symm text edited _ ih => exact fun settings => (ih settings).symm
    | trans text edited final _ _ first second =>
      exact fun settings => (first settings).trans (second settings)
  · intro settings hparse
    obtain ⟨allowed, rfl⟩ := parse_eq_ok_iff_cut.mp hparse
    rw [size_ofLines allowed.each, Text.cut_eq_splitOnP]
    rfl

/-- A key in other letters, blanks around the equals sign, a comment behind a header, the other line
end and a line more. The carriage return belongs to the value, which a pattern file would cut there.
-/
theorem parse_of_layout_combined :
    let settings : Settings := ⟨[⟨"ignores".toList, "*.o\rk = v".toList⟩], [⟨"a".toList, []⟩]⟩
    parse "Ignores=*.o\rk = v\n[ a ] ".toList none = .ok settings ∧
      parse "# top\nIGNORES =\t*.o\rk = v\r\n[ a ] ; x".toList none = .ok settings ∧
      settings.size = 2 ∧
        PatternFile.patterns "*.o\rk = v".toList = ["*.o".toList, "k = v".toList] := by
  intro settings
  let key := "Ignores".toList
  let other := "IGNORES".toList
  let value := "*.o\rk = v".toList
  let entry := other ++ " ".toList ++ '=' :: ("\t".toList ++ value)
  let header := [] ++ '[' :: (" a ".toList ++ ']' :: " ".toList)
  let commented := [] ++ '[' :: (" a ".toList ++ ']' :: (" ".toList ++ "; x".toList))
  have hkey : KeyPart key := by decide
  have hother : KeyPart other := by decide
  have hspace : Padding " ".toList := by decide
  have htab : Padding "\t".toList := by decide
  have hcase :
      LayoutEdit (key ++ '=' :: value ++ '\n' :: header)
        (other ++ '=' :: value ++ '\n' :: header) :=
    @LayoutEdit.inLine [] (key ++ '=' :: value) (other ++ '=' :: value) ('\n' :: header)
      (.inl rfl) .feed
      (by decide) (by decide) (.keyCase hkey (by decide))
  have hequals : LayoutEdit (other ++ '=' :: value ++ '\n' :: header) (entry ++ '\n' :: header) :=
    @LayoutEdit.inLine [] (other ++ '=' :: value) entry ('\n' :: header) (.inl rfl) .feed
      (by decide) (by decide) (.aroundEquals hother hspace htab)
  have hcomment : LayoutEdit (entry ++ ['\n'] ++ header) (entry ++ ['\n'] ++ commented) := by
    have hedit := @LayoutEdit.inLine (entry ++ ['\n']) header commented [] (.inr (by decide)) .nil
      (by decide) (by decide) (.trailingComment padding_nil (by decide) hspace (.inr rfl))
    rwa [List.append_nil, List.append_nil] at hedit
  have hend : LayoutEdit (entry ++ '\n' :: commented) (entry ++ '\r' :: '\n' :: commented) :=
    .lineEnd
  have hline : LayoutEdit (entry ++ '\r' :: '\n' :: commented)
      ("# top".toList ++ '\n' :: (entry ++ '\r' :: '\n' :: commented)) :=
    @LayoutEdit.insertLine [] "# top".toList _ (.inl rfl)
      (@SilentLine.comment [] " top".toList '#' padding_nil (.inl rfl) (by decide))
  have edits : Relation.EqvGen LayoutEdit (key ++ '=' :: value ++ '\n' :: header)
      ("# top".toList ++ '\n' :: (entry ++ '\r' :: '\n' :: commented)) :=
    .trans _ _ _ (.rel _ _ hcase) (.trans _ _ _ (.rel _ _ hequals) (.trans _ _ _ (.rel _ _ hcomment)
      (.trans _ _ _ (.rel _ _ hend) (.rel _ _ hline))))
  obtain ⟨hsame, hsize, -, hpatterns⟩ := parse_of_layout edits none
  have hparse : parse (key ++ '=' :: value ++ '\n' :: header) none = .ok settings := by
    decide +kernel
  exact ⟨hparse, (hsame settings).mp hparse, rfl, (hpatterns "*.o".toList "k = v".toList).trans
    (by decide +kernel)⟩

end Settings

end PathFilter
