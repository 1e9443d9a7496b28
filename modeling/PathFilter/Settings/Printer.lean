import PathFilter.Settings.Basic
import PathFilter.Text.Blank

/-!
Writing settings: the shared entries first, then each section under its header, one line an entry.
`WellFormed` says which settings such a text can hold.
-/

set_option autoImplicit false
set_option relaxedAutoImplicit false

namespace PathFilter

def Entry.line (entry : Entry) : Text := entry.key ++ " = ".toList ++ entry.value ++ ['\n']

def Section.lines (part : Section) : Text :=
  '[' :: part.name ++ "]\n".toList ++ part.entries.flatMap Entry.line

def Settings.render (settings : Settings) : Text :=
  settings.shared.flatMap Entry.line ++ settings.sections.flatMap Section.lines

/-- A text is free of blanks at both ends. -/
def Text.Trimmed (text : Text) : Prop := Text.trim text = text

/-- A line can hold the entry. -/
structure Entry.WellFormed (entry : Entry) : Prop where
  key_ne_nil : entry.key ≠ []
  key_trimmed : Text.Trimmed entry.key
  key_lower : ∀ c ∈ entry.key, c ≠ '=' ∧ c ≠ '\n' ∧ ¬ c.isUpper
  key_start : entry.key.head? ≠ some '#' ∧ entry.key.head? ≠ some ';' ∧ entry.key.head? ≠ some '['
  value_trimmed : Text.Trimmed entry.value
  value_oneLine : '\n' ∉ entry.value

/-- A header can hold the name, and lines can hold the entries. -/
structure Section.WellFormed (part : Section) : Prop where
  name_ne_nil : part.name ≠ []
  name_trimmed : Text.Trimmed part.name
  name_chars : ']' ∉ part.name ∧ '\n' ∉ part.name
  entries : ∀ entry ∈ part.entries, entry.WellFormed

/-- A text can hold the settings. -/
structure Settings.WellFormed (settings : Settings) : Prop where
  shared : ∀ entry ∈ settings.shared, entry.WellFormed
  sections : ∀ part ∈ settings.sections, part.WellFormed
  names : settings.repositories.Nodup

end PathFilter
