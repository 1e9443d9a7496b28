import PathFilter.Settings.Parser

/-!
The rules of settings files, said without a reader. A line is judged by its content, which is the
line without the blanks around it: a remark, a header, or an assignment. `SettingsLine.Allowed` is
the rule for a line on its own and `Settings.Allowed` the one for lines in order;
`SettingsLine.Breaks` says which check a wrong line fails first. `SettingsLine.read` goes by these
shapes.
-/

set_option autoImplicit false
set_option relaxedAutoImplicit false

namespace PathFilter

namespace SettingsLine

/-- A content that says nothing: it is empty or a comment. -/
def Remark (content : Text) : Prop :=
  content = [] ∨ content.head? = some '#' ∨ content.head? = some ';'

/-- The content of a header: `name` stands between the opening bracket and the first closing one. -/
structure Header (content name rest : Text) : Prop where
  content_eq : content = '[' :: (name ++ ']' :: rest)
  not_mem : ']' ∉ name

/-- The content of an assignment: `key` stands before the first equals sign. -/
structure Assignment (content key value : Text) : Prop where
  content_eq : content = key ++ '=' :: value
  not_mem : '=' ∉ key
  head_ne : content.head? ≠ some '['

def Names (line name : Text) : Prop :=
  ∃ inside rest, Header (Text.trim line) inside rest ∧ Text.trim inside = name

inductive Allowed (line : Text) : Prop
  | remark (silent : Remark (Text.trim line)) : Allowed line
  | header {name rest : Text} (shape : Header (Text.trim line) name rest)
      (named : Text.trim name ≠ []) (ended : Remark (Text.trim rest)) : Allowed line
  | assignment {key value : Text} (shape : Assignment (Text.trim line) key value)
      (named : Text.trim key ≠ []) : Allowed line

/-- The first check that a line fails after some earlier lines, which are counted from one. -/
inductive Breaks (earlier : List Text) (line : Text) : LineFault → Prop
  | openHeader {rest : Text} (opens : Text.trim line = '[' :: rest) (endless : ']' ∉ rest) :
      Breaks earlier line .openHeader
  | emptyName {name rest : Text} (shape : Header (Text.trim line) name rest)
      (empty : Text.trim name = []) : Breaks earlier line .emptyName
  | repeatedName {name rest other : Text} {index : Nat}
      (shape : Header (Text.trim line) name rest) (named : Text.trim name ≠ [])
      (before : earlier[index]? = some other) (same : Names other (Text.trim name)) :
      Breaks earlier line (.repeatedName (Text.trim name) (index + 1))
  | afterHeader {name rest : Text} (shape : Header (Text.trim line) name rest)
      (named : Text.trim name ≠ []) (fresh : ∀ other ∈ earlier, ¬ Names other (Text.trim name))
      (more : ¬ Remark (Text.trim rest)) : Breaks earlier line .afterHeader
  | noEquals (speaks : ¬ Remark (Text.trim line)) (head_ne : (Text.trim line).head? ≠ some '[')
      (endless : '=' ∉ Text.trim line) : Breaks earlier line .noEquals
  | emptyKey {key value : Text} (speaks : ¬ Remark (Text.trim line))
      (shape : Assignment (Text.trim line) key value) (empty : Text.trim key = []) :
      Breaks earlier line .emptyKey

end SettingsLine

/-- The rules for lines in order: each is allowed on its own, and no two are headers under one name.
-/
structure Settings.Allowed (lines : List Text) : Prop where
  each : ∀ line ∈ lines, SettingsLine.Allowed line
  names : lines.Pairwise fun a b => ∀ name, SettingsLine.Names a name → ¬ SettingsLine.Names b name

namespace SettingsLine

variable {line content name rest key value : Text}

theorem isComment_eq_true_iff : Text.isComment content = true ↔ Remark content := by
  cases content with
  | nil => simp [Text.isComment, Remark]
  | cons c rest => simp [Text.isComment, Remark]

theorem Header.not_remark (shape : Header content name rest) : ¬ Remark content := by
  rw [shape.content_eq]
  simp [Remark]

inductive Shape (content : Text) : Prop
  | remark (silent : Remark content) : Shape content
  | openHeader {rest : Text} (opens : content = '[' :: rest) (endless : ']' ∉ rest) : Shape content
  | header {name rest : Text} (shape : Header content name rest) : Shape content
  | noEquals (speaks : ¬ Remark content) (head_ne : content.head? ≠ some '[')
      (endless : '=' ∉ content) : Shape content
  | assignment {key value : Text} (speaks : ¬ Remark content)
      (shape : Assignment content key value) : Shape content

theorem shape_of_content (content : Text) : Shape content := by
  by_cases silent : Remark content
  · exact .remark silent
  · by_cases opens : content.head? = some '['
    · obtain ⟨rest, hrest⟩ := List.head?_eq_some_iff.mp opens
      cases hsplit : Text.splitFirst? ']' rest with
      | none => exact .openHeader hrest (Text.splitFirst?_eq_none.mp hsplit)
      | some parts =>
        obtain ⟨hparts, hname⟩ := Text.splitFirst?_eq_some hsplit
        exact .header ⟨by rw [hrest, hparts], hname⟩
    · cases hsplit : Text.splitFirst? '=' content with
      | none => exact .noEquals silent opens (Text.splitFirst?_eq_none.mp hsplit)
      | some parts =>
        obtain ⟨hparts, hkey⟩ := Text.splitFirst?_eq_some hsplit
        exact .assignment silent ⟨hparts, hkey, opens⟩

theorem read_of_remark (silent : Remark (Text.trim line)) : read line = .ok .skipped := by
  rw [read]
  split
  · rfl
  next rest heq => simp [heq, Remark] at silent
  next c rest _ heq => rw [← heq, isComment_eq_true_iff.mpr silent, if_pos rfl]

private theorem read_of_bracket (opens : Text.trim line = '[' :: rest) :
    read line = readHeader rest := by
  rw [read, opens]
  rfl

theorem read_of_header (shape : Header (Text.trim line) name rest) :
    read line = if Text.trim name = [] then .error .emptyName
      else .ok (.header (Text.trim name) (Text.trim rest)) := by
  rw [read_of_bracket shape.content_eq, readHeader, Text.splitFirst?_append shape.not_mem]
  simp only [List.isEmpty_iff]

theorem read_of_openHeader (opens : Text.trim line = '[' :: rest) (endless : ']' ∉ rest) :
    read line = .error .openHeader := by
  rw [read_of_bracket opens, readHeader, Text.splitFirst?_eq_none.mpr endless]

private theorem read_of_speaking (speaks : ¬ Remark (Text.trim line))
    (head_ne : (Text.trim line).head? ≠ some '[') : read line = readEntry (Text.trim line) := by
  rw [read]
  split
  next heq => exact absurd (Or.inl heq) speaks
  next rest heq => exact absurd (by rw [heq]; rfl) head_ne
  next c rest _ heq =>
    rw [← isComment_eq_true_iff, heq] at speaks
    rw [if_neg speaks, heq]

theorem read_of_noEquals (speaks : ¬ Remark (Text.trim line))
    (head_ne : (Text.trim line).head? ≠ some '[') (endless : '=' ∉ Text.trim line) :
    read line = .error .noEquals := by
  rw [read_of_speaking speaks head_ne, readEntry, Text.splitFirst?_eq_none.mpr endless]

theorem read_of_assignment (speaks : ¬ Remark (Text.trim line))
    (shape : Assignment (Text.trim line) key value) :
    read line = if Text.trim key = [] then .error .emptyKey
      else .ok (.entry ⟨Text.lowerAscii (Text.trim key), Text.trim value⟩) := by
  rw [read_of_speaking speaks shape.head_ne, readEntry, shape.content_eq,
    Text.splitFirst?_append shape.not_mem]
  simp only [List.isEmpty_iff]

end SettingsLine

end PathFilter
