import Mathlib.Data.List.Induction
import Mathlib.Logic.Basic
import PathFilter.Proofs.Settings.Meaning
import PathFilter.Proofs.Settings.Wording
import PathFilter.Proofs.Text.Lines

/-!
Which settings files are read. What the reader holds after some lines is what these lines mean
(`SettingsReader.Holds`), and one more line is either allowed and taken in or fails a check. So a
file is read if and only if its lines are allowed, and else the first line that is not is told.
-/

set_option autoImplicit false
set_option relaxedAutoImplicit false

namespace PathFilter

open SettingsLine

namespace SettingsLine

/-- The line of that number, counted from one, is a header under the name. -/
def NamesAt (lines : List Text) (name : Text) (number : Nat) : Prop :=
  ∃ index line, lines[index]? = some line ∧ Names line name ∧ number = index + 1

private theorem namesAt_concat_iff {lines : List Text} {line name : Text} {number : Nat} :
    NamesAt (lines ++ [line]) name number ↔
      NamesAt lines name number ∨ Names line name ∧ number = lines.length + 1 := by
  constructor
  · rintro ⟨index, other, hother, hname, rfl⟩
    rcases Nat.lt_or_ge index lines.length with hindex | hindex
    · rw [List.getElem?_append_left hindex] at hother
      exact .inl ⟨index, other, hother, hname, rfl⟩
    · rw [List.getElem?_append_right hindex, List.getElem?_singleton] at hother
      split_ifs at hother with hlast
      rw [← Option.some.inj hother] at hname
      exact .inr ⟨hname, by omega⟩
  · rintro (⟨index, other, hother, hname, rfl⟩ | ⟨hname, rfl⟩)
    · have hindex : index < lines.length := (List.getElem?_eq_some_iff.mp hother).1
      exact ⟨index, other, by rw [List.getElem?_append_left hindex, hother], hname, rfl⟩
    · exact ⟨lines.length, line, List.getElem?_concat_length, hname, rfl⟩

private theorem Breaks.namesAt {earlier : List Text} {line name : Text} {first : Nat}
    (breaks : Breaks earlier line (.repeatedName name first)) :
    Names line name ∧ NamesAt earlier name first := by
  cases breaks with
  | repeatedName shape _ before same => exact ⟨⟨_, _, shape, rfl⟩, _, _, before, same, rfl⟩

private theorem allowed_or_breaks (earlier : List Text) (line : Text) :
    (Allowed line ∧ ∀ other ∈ earlier, ∀ name, Names other name → ¬ Names line name) ∨
      ∃ fault, Breaks earlier line fault := by
  have hunnamed : (Text.trim line).head? ≠ some '[' → ∀ name, ¬ Names line name := by
    intro head_ne name hname
    rw [← name?_eq_some_iff, name?_eq_none head_ne] at hname
    exact absurd hname.symm (Option.some_ne_none name)
  cases shape_of_content (Text.trim line) with
  | remark silent =>
    exact .inl ⟨.remark silent, fun _ _ name _ => hunnamed silent.head?_ne name⟩
  | openHeader opens endless => exact .inr ⟨_, .openHeader opens endless⟩
  | @header inside rest shape =>
    by_cases named : Text.trim inside = []
    · exact .inr ⟨_, .emptyName shape named⟩
    by_cases fresh : ∀ other ∈ earlier, ¬ Names other (Text.trim inside)
    · by_cases ended : Remark (Text.trim rest)
      · refine .inl ⟨.header shape named ended, ?_⟩
        intro other hother name hbefore hname
        rw [← name?_eq_some_iff, name?_eq_some_iff.mpr ⟨inside, rest, shape, rfl⟩,
          Option.some.injEq] at hname
        exact fresh other hother (hname ▸ hbefore)
      · exact .inr ⟨_, .afterHeader shape named fresh ended⟩
    · simp only [not_forall, not_not] at fresh
      obtain ⟨other, hother, same⟩ := fresh
      obtain ⟨index, hindex⟩ := List.getElem?_of_mem hother
      exact .inr ⟨_, .repeatedName shape named hindex same⟩
  | noEquals speaks head_ne endless => exact .inr ⟨_, .noEquals speaks head_ne endless⟩
  | @assignment key value speaks shape =>
    by_cases named : Text.trim key = []
    · exact .inr ⟨_, .emptyKey speaks shape named⟩
    · exact .inl ⟨.assignment shape named, fun _ _ name _ => hunnamed shape.head_ne name⟩

end SettingsLine

namespace Settings

private theorem allowed_nil : Settings.Allowed [] := ⟨by simp, List.Pairwise.nil⟩

theorem allowed_iff_nodup {lines : List Text} :
    Settings.Allowed lines ↔
      (∀ line ∈ lines, SettingsLine.Allowed line) ∧ (lines.filterMap name?).Nodup := by
  have hnames : (lines.filterMap name?).Nodup ↔
      lines.Pairwise fun a b => ∀ name, Names a name → ¬ Names b name := by
    rw [List.Nodup, List.pairwise_filterMap]
    simp only [← name?_eq_some_iff]
    refine iff_of_eq (congrArg (List.Pairwise · lines) ?_)
    funext a b
    refine propext ⟨fun h name ha hb => h name ha name hb rfl, ?_⟩
    rintro h name ha other hb rfl
    exact h name ha hb
  rw [hnames]
  exact ⟨fun h => ⟨h.each, h.names⟩, fun h => ⟨h.1, h.2⟩⟩

private theorem allowed_concat_iff {lines : List Text} {line : Text} :
    Settings.Allowed (lines ++ [line]) ↔ Settings.Allowed lines ∧ SettingsLine.Allowed line ∧
      ∀ other ∈ lines, ∀ name, Names other name → ¬ Names line name := by
  constructor
  · rintro ⟨each, names⟩
    rw [List.pairwise_append] at names
    obtain ⟨hlines, -, hcross⟩ := names
    exact ⟨⟨fun other hother => each other (List.mem_append_left _ hother), hlines⟩,
      each line (by simp), fun other hother => hcross other hother line (List.mem_singleton_self _)⟩
  · rintro ⟨hallowed, hline, fresh⟩
    refine ⟨?_, List.pairwise_append.mpr ⟨hallowed.names, List.pairwise_singleton _ _, ?_⟩⟩
    · intro other hother
      rcases List.mem_append.mp hother with hother | hother
      · exact hallowed.each other hother
      · rw [List.mem_singleton.mp hother]
        exact hline
    · intro other hother last hlast
      rw [List.mem_singleton.mp hlast]
      exact fresh other hother

private theorem exists_breaks_of_not_allowed {lines : List Text} (h : ¬ Settings.Allowed lines) :
    ∃ earlier line later fault, lines = earlier ++ line :: later ∧ Settings.Allowed earlier ∧
      Breaks earlier line fault := by
  -- from the end, so that the line found is the first one
  induction lines using List.reverseRecOn with
  | nil => exact absurd allowed_nil h
  | append_singleton lines line ih =>
    by_cases hlines : Settings.Allowed lines
    · rcases allowed_or_breaks lines line with hline | ⟨fault, breaks⟩
      · exact absurd (allowed_concat_iff.mpr ⟨hlines, hline⟩) h
      · exact ⟨lines, line, [], fault, rfl, hlines, breaks⟩
    · obtain ⟨earlier, first, later, fault, rfl, hearlier, breaks⟩ := ih hlines
      exact ⟨earlier, first, later ++ [line], fault, by simp, hearlier, breaks⟩

end Settings

namespace SettingsReader

/-- What a reader holds after some lines: their meaning, and their headers with line numbers. -/
structure Holds (reader : SettingsReader) (lines : List Text) : Prop where
  settings : reader.settings = Settings.ofLines lines
  headers : ∀ name number, reader.headers.lookup name = some number ↔ NamesAt lines name number

variable {reader : SettingsReader} {lines : List Text} {line : Text} {fault : LineFault}

private theorem holds_nil : Holds {} [] := ⟨rfl, by simp [NamesAt]⟩

private theorem Holds.lookup_eq_none (holds : Holds reader lines) {name : Text}
    (fresh : ∀ other ∈ lines, ¬ Names other name) : reader.headers.lookup name = none := by
  rw [Option.eq_none_iff_forall_ne_some]
  intro number hnumber
  obtain ⟨index, other, hother, hname, -⟩ := (holds.headers name number).mp hnumber
  exact fresh other (List.mem_of_getElem? hother) hname

private theorem Holds.concat_of_unnamed (holds : Holds reader lines) (unnamed : name? line = none)
    {settings : Settings} (hsettings : settings = Settings.ofLines (lines ++ [line])) :
    Holds { reader with settings := settings } (lines ++ [line]) := by
  refine ⟨hsettings, fun name number => ?_⟩
  have hname : ¬ Names line name := by
    rw [← name?_eq_some_iff, unnamed]
    exact (Option.some_ne_none name).symm
  rw [namesAt_concat_iff, holds.headers, or_iff_left fun h => hname h.1]

private theorem Holds.concat_of_header (holds : Holds reader lines) {name : Text}
    (hname : name? line = some name) (hlookup : reader.headers.lookup name = none) :
    Holds { settings := { reader.settings with
              sections := reader.settings.sections ++ [⟨name, []⟩] }
            headers := reader.headers ++ [(name, lines.length + 1)] } (lines ++ [line]) := by
  constructor
  · rw [holds.settings, Settings.ofLines_concat_of_header hname]
  · intro other number
    rw [namesAt_concat_iff, ← holds.headers, ← name?_eq_some_iff, hname, List.lookup_append]
    by_cases hother : other = name
    · subst hother
      simp [hlookup, eq_comm]
    · have hbeq : (other == name) = false := beq_eq_false_iff_ne.mpr hother
      simp only [List.lookup_cons, List.lookup_nil, hbeq, Option.or_none, Option.some.injEq,
        Ne.symm hother, false_and, or_false]

/-- A line that is allowed after those that were read is taken in. -/
theorem Holds.take_of_allowed (holds : Holds reader lines) (allowed : SettingsLine.Allowed line)
    (fresh : ∀ other ∈ lines, ∀ name, Names other name → ¬ Names line name) :
    ∃ next, (read line).bind (take reader (lines.length + 1)) = .ok next ∧
      Holds next (lines ++ [line]) := by
  -- a comment may have the shape of an assignment, and it is read as a comment
  by_cases silent : Remark (Text.trim line)
  · have hname : name? line = none := name?_eq_none silent.head?_ne
    have hentry : entryOf? line = none := by rw [entryOf?, assignment?_of_remark silent]; rfl
    refine ⟨reader, by rw [read_of_remark silent]; rfl, holds.concat_of_unnamed hname ?_⟩
    rw [holds.settings, Settings.ofLines_concat_of_none hname hentry]
  · cases allowed with
    | remark h => exact absurd h silent
    | @header inside rest shape named ended =>
      have hname : name? line = some (Text.trim inside) :=
        name?_eq_some_iff.mpr ⟨inside, rest, shape, rfl⟩
      have hlookup : reader.headers.lookup (Text.trim inside) = none :=
        holds.lookup_eq_none fun other hother hbefore =>
          fresh other hother _ hbefore (name?_eq_some_iff.mp hname)
      refine ⟨_, ?_, holds.concat_of_header hname hlookup⟩
      rw [read_of_header shape, if_neg named]
      simp [Except.bind, take, hlookup, isComment_eq_true_iff.mpr ended]
    | @assignment key value shape named =>
      have hname : name? line = none := name?_eq_none shape.head_ne
      have hentry : entryOf? line = some ⟨Text.lowerAscii (Text.trim key), Text.trim value⟩ := by
        rw [entryOf?, assignment?_of_assignment silent shape]; rfl
      refine ⟨_, by rw [read_of_assignment silent shape, if_neg named]; rfl,
        holds.concat_of_unnamed hname ?_⟩
      rw [holds.settings, Settings.ofLines_concat_of_entry hname hentry]

private theorem Holds.take_of_breaks (holds : Holds reader lines)
    (breaks : Breaks lines line fault) :
    (read line).bind (take reader (lines.length + 1)) = .error fault := by
  cases breaks with
  | openHeader opens endless => rw [read_of_openHeader opens endless]; rfl
  | emptyName shape empty => rw [read_of_header shape, if_pos empty]; rfl
  | @repeatedName inside rest other index shape named before same =>
    have hlookup : reader.headers.lookup (Text.trim inside) = some (index + 1) :=
      (holds.headers _ _).mpr ⟨index, other, before, same, rfl⟩
    rw [read_of_header shape, if_neg named]
    simp [Except.bind, take, hlookup]
  | afterHeader shape named fresh more =>
    rw [read_of_header shape, if_neg named]
    rw [← isComment_eq_true_iff] at more
    simp [Except.bind, take, holds.lookup_eq_none fresh, more]
  | noEquals speaks head_ne endless => rw [read_of_noEquals speaks head_ne endless]; rfl
  | emptyKey speaks shape empty => rw [read_of_assignment speaks shape, if_pos empty]; rfl

private theorem takeAll_append (reader : SettingsReader) (number : Nat)
    (earlier later : List Text) :
    takeAll reader number (earlier ++ later) =
      (takeAll reader number earlier).bind fun next =>
        takeAll next (number + earlier.length) later := by
  induction earlier generalizing reader number with
  | nil => rfl
  | cons line rest ih =>
    rw [List.cons_append, takeAll, takeAll]
    cases (read line).bind (take reader number) with
    | error fault => rfl
    | ok next =>
      rw [List.length_cons, Nat.add_comm rest.length, ← Nat.add_assoc]
      exact ih next (number + 1)

private theorem takeAll_of_allowed {lines : List Text} (allowed : Settings.Allowed lines) :
    ∃ reader, takeAll {} 1 lines = .ok reader ∧ Holds reader lines := by
  -- from the end, in the order of reading: `Holds` is carried from line to line
  induction lines using List.reverseRecOn with
  | nil => exact ⟨{}, rfl, holds_nil⟩
  | append_singleton lines line ih =>
    obtain ⟨hlines, hline, fresh⟩ := Settings.allowed_concat_iff.mp allowed
    obtain ⟨reader, hreader, holds⟩ := ih hlines
    obtain ⟨next, hnext, hholds⟩ := holds.take_of_allowed hline fresh
    refine ⟨next, ?_, hholds⟩
    rw [takeAll_append, hreader, Except.bind, Nat.add_comm, takeAll, hnext]
    rfl

private theorem takeAll_of_breaks {earlier : List Text} (allowed : Settings.Allowed earlier)
    (breaks : Breaks earlier line fault) (later : List Text) :
    takeAll {} 1 (earlier ++ line :: later) = .error (earlier.length + 1, fault) := by
  obtain ⟨reader, hreader, holds⟩ := takeAll_of_allowed allowed
  rw [takeAll_append, hreader, Except.bind, Nat.add_comm, takeAll, holds.take_of_breaks breaks]

end SettingsReader

namespace Settings

variable {text : Text} {file? : Option FileName}

theorem parse_of_allowed (allowed : Settings.Allowed (Text.lines text)) :
    parse text file? = .ok (ofLines (Text.lines text)) := by
  obtain ⟨reader, hreader, holds⟩ := SettingsReader.takeAll_of_allowed allowed
  rw [parse, hreader, ← holds.settings]

private theorem parse_of_breaks {earlier later : List Text} {line : Text} {fault : LineFault}
    (hlines : Text.lines text = earlier ++ line :: later) (allowed : Settings.Allowed earlier)
    (breaks : Breaks earlier line fault) :
    parse text file? = .error (.malformed file? (earlier.length + 1) fault) := by
  rw [parse, hlines, SettingsReader.takeAll_of_breaks allowed breaks]

theorem parse_eq_ok_iff {settings : Settings} :
    parse text file? = .ok settings ↔
      Settings.Allowed (Text.lines text) ∧ settings = ofLines (Text.lines text) := by
  constructor
  · intro hparse
    by_cases allowed : Settings.Allowed (Text.lines text)
    · rw [parse_of_allowed allowed] at hparse
      exact ⟨allowed, (Except.ok.inj hparse).symm⟩
    · obtain ⟨_, _, _, _, hlines, hearlier, breaks⟩ := exists_breaks_of_not_allowed allowed
      rw [parse_of_breaks hlines hearlier breaks] at hparse
      exact absurd hparse (by simp)
  · rintro ⟨allowed, rfl⟩
    exact parse_of_allowed allowed

theorem parse_eq_error_iff {error : SettingsError} :
    parse text file? = .error error ↔
      ∃ earlier line later fault, Text.lines text = earlier ++ line :: later ∧
        Settings.Allowed earlier ∧ Breaks earlier line fault ∧
        error = .malformed file? (earlier.length + 1) fault := by
  constructor
  · intro hparse
    by_cases allowed : Settings.Allowed (Text.lines text)
    · rw [parse_of_allowed allowed] at hparse
      exact absurd hparse (by simp)
    · obtain ⟨earlier, line, later, fault, hlines, hearlier, breaks⟩ :=
        exists_breaks_of_not_allowed allowed
      rw [parse_of_breaks hlines hearlier breaks] at hparse
      exact ⟨earlier, line, later, fault, hlines, hearlier, breaks, (Except.error.inj hparse).symm⟩
  · rintro ⟨earlier, line, later, fault, hlines, hearlier, breaks, rfl⟩
    exact parse_of_breaks hlines hearlier breaks

private theorem not_allowed_of_breaks {earlier : List Text} {line : Text} {fault : LineFault}
    (breaks : Breaks earlier line fault) : ¬ Settings.Allowed (earlier ++ [line]) := by
  intro allowed
  obtain ⟨hearlier, -, -⟩ := allowed_concat_iff.mp allowed
  obtain ⟨reader, hreader, -⟩ := SettingsReader.takeAll_of_allowed allowed
  rw [SettingsReader.takeAll_of_breaks hearlier breaks []] at hreader
  exact absurd hreader (by simp)

/-- A settings file is read if and only if its lines are allowed. Else the error tells the first
line that is not, and its message is the wording of the first check that this line fails, and of no
other check; a repeated name is told with the number of the earlier line. The lines before it are
read, and the lines up to it give the same error whatever follows. -/
theorem parse_reads_allowed (text : Text) (file? : Option FileName) :
    ((∃ settings, parse text file? = .ok settings) ↔ Settings.Allowed (Text.lines text)) ∧
      (∀ error, parse text file? = .error error ↔
        ∃ earlier line later fault, Text.lines text = earlier ++ line :: later ∧
          Settings.Allowed earlier ∧ ¬ Settings.Allowed (earlier ++ [line]) ∧
          Breaks earlier line fault ∧ error = .malformed file? (earlier.length + 1) fault ∧
          error.line? = some (earlier.length + 1) ∧
          (∀ check, LineFault.Worded check error.message ↔ check = fault) ∧
          ∀ name first, fault = .repeatedName name first →
            Names line name ∧ NamesAt earlier name first) ∧
      ∀ number fault, parse text file? = .error (.malformed file? number fault) →
        (∃ settings, parse (Text.firstLines (number - 1) text) file? = .ok settings) ∧
        parse (Text.firstLines number text) file? = .error (.malformed file? number fault) ∧
        ∀ other, (Text.lines other).take number = (Text.lines text).take number →
          parse other file? = .error (.malformed file? number fault) := by
  refine ⟨?_, ?_, ?_⟩
  · constructor
    · rintro ⟨settings, hparse⟩
      exact (parse_eq_ok_iff.mp hparse).1
    · intro allowed
      exact ⟨_, parse_of_allowed allowed⟩
  · intro error
    rw [parse_eq_error_iff]
    constructor
    · rintro ⟨earlier, line, later, fault, hlines, hearlier, breaks, rfl⟩
      refine ⟨earlier, line, later, fault, hlines, hearlier, not_allowed_of_breaks breaks, breaks,
        rfl, rfl, fun check => LineFault.worded_message_iff, ?_⟩
      rintro name first rfl
      exact breaks.namesAt
    · rintro ⟨earlier, line, later, fault, hlines, hearlier, -, breaks, herror, -⟩
      exact ⟨earlier, line, later, fault, hlines, hearlier, breaks, herror⟩
  · intro number fault hparse
    obtain ⟨earlier, line, later, found, hlines, hearlier, breaks, herror⟩ :=
      parse_eq_error_iff.mp hparse
    obtain ⟨-, rfl, rfl⟩ := SettingsError.malformed.inj herror
    have hbefore : (Text.lines text).take earlier.length = earlier := by
      rw [hlines, List.take_left]
    have hupto : (Text.lines text).take (earlier.length + 1) = earlier ++ [line] := by
      rw [hlines, List.append_cons, List.take_left' (by simp)]
    have hsame : ∀ other, (Text.lines other).take (earlier.length + 1) = earlier ++ [line] →
        parse other file? = .error (.malformed file? (earlier.length + 1) fault) := by
      intro other hother
      have hsplit : Text.lines other =
          earlier ++ line :: (Text.lines other).drop (earlier.length + 1) := by
        rw [← List.singleton_append, ← List.append_assoc, ← hother, List.take_append_drop]
      exact parse_of_breaks hsplit hearlier breaks
    refine ⟨⟨_, parse_of_allowed ?_⟩, hsame _ ?_, ?_⟩
    · rw [Text.lines_firstLines, Nat.add_sub_cancel, hbefore]
      exact hearlier
    · rw [Text.lines_firstLines, List.take_take, Nat.min_self, hupto]
    · intro other hother
      exact hsame other (hother.trans hupto)

theorem parse_reads_allowed_repeated :
    parse "[a]\n[ a ] x\nk".toList none =
        .error (.malformed none 2 (.repeatedName "a".toList 1)) ∧
      (∀ check,
        LineFault.Worded check "duplicate section 'a' (previously defined at line 1)".toList ↔
        check = .repeatedName "a".toList 1) ∧
      (∃ settings, parse (Text.firstLines 1 "[a]\n[ a ] x\nk".toList) none = .ok settings) ∧
      parse "[a]\r\n[ a ] x\nk = v".toList none =
        .error (.malformed none 2 (.repeatedName "a".toList 1)) := by
  have hparse : parse "[a]\n[ a ] x\nk".toList none =
      .error (.malformed none 2 (.repeatedName "a".toList 1)) := by
    decide +kernel
  have hmessage : (SettingsError.malformed none 2 (.repeatedName "a".toList 1)).message =
      "duplicate section 'a' (previously defined at line 1)".toList := by decide +kernel
  obtain ⟨-, herror, hfirst⟩ := parse_reads_allowed "[a]\n[ a ] x\nk".toList none
  obtain ⟨_, _, _, fault, -, -, -, -, hfault, -, hworded, -⟩ := (herror _).mp hparse
  obtain ⟨-, -, rfl⟩ := SettingsError.malformed.inj hfault
  obtain ⟨hbefore, -, hsame⟩ := hfirst 2 _ hparse
  refine ⟨hparse, ?_, hbefore, hsame _ (by decide +kernel)⟩
  rw [← hmessage]
  exact hworded

end Settings

end PathFilter
