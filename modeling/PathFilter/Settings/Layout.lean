import PathFilter.Settings.Basic
import PathFilter.Text.Blank

/-!
The layout of a settings file: what of its text is not for its settings. `LayoutEdit` says what may
be put in or changed at one place; the same edit backwards takes it out again. Lines end at line
feeds, and a carriage return is a blank like any other.
-/

set_option autoImplicit false
set_option relaxedAutoImplicit false

namespace PathFilter.Settings

/-- Blanks that do not end a line. -/
def Padding (text : Text) : Prop := ∀ c ∈ text, Text.isBlank c = true ∧ c ≠ '\n'

/-- A line that says nothing: it is blank, or a comment stands in it alone. -/
inductive SilentLine : Text → Prop
  | blank {padding : Text} : Padding padding → SilentLine padding
  | comment {padding words : Text} {mark : Char} :
      Padding padding → mark = '#' ∨ mark = ';' → '\n' ∉ words →
        SilentLine (padding ++ mark :: words)

/-- What stands before the first equals sign of an entry, blanks around the key included. It begins
neither as a header nor as a comment. -/
structure KeyPart (part : Text) : Prop where
  noEquals : '=' ∉ part
  start : ∀ c, (Text.trimStart part).head? = some c → c ≠ '[' ∧ c ≠ '#' ∧ c ≠ ';'

inductive LineEdit : Text → Text → Prop
  | start {padding line : Text} : Padding padding → LineEdit line (padding ++ line)
  | finish {padding line : Text} : Padding padding → LineEdit line (line ++ padding)
  | aroundEquals {part value before after : Text} : KeyPart part → Padding before → Padding after →
      LineEdit (part ++ '=' :: value) (part ++ before ++ '=' :: (after ++ value))
  | keyCase {part other value : Text} :
      KeyPart part → Text.lowerAscii part = Text.lowerAscii other →
      LineEdit (part ++ '=' :: value) (other ++ '=' :: value)
  | insideBrackets {indent name rest before after : Text} : Padding indent → ']' ∉ name →
      Padding before → Padding after →
      LineEdit (indent ++ '[' :: (name ++ ']' :: rest))
        (indent ++ '[' :: (before ++ name ++ after ++ ']' :: rest))
  | afterBracket {indent name rest padding : Text} : Padding indent → ']' ∉ name → Padding padding →
      LineEdit (indent ++ '[' :: (name ++ ']' :: rest))
        (indent ++ '[' :: (name ++ ']' :: (padding ++ rest)))
  | trailingComment {indent name gap words : Text} {mark : Char} : Padding indent → ']' ∉ name →
      Padding gap → mark = '#' ∨ mark = ';' →
      LineEdit (indent ++ '[' :: (name ++ ']' :: gap))
        (indent ++ '[' :: (name ++ ']' :: (gap ++ mark :: words)))

def AtLineStart (before : Text) : Prop := before = [] ∨ before.getLast? = some '\n'

inductive AtLineEnd : Text → Prop
  | nil : AtLineEnd []
  | feed {rest : Text} : AtLineEnd ('\n' :: rest)
  | both {rest : Text} : AtLineEnd ('\r' :: '\n' :: rest)

/-- An edit of the layout at one place of a text: a line that says nothing is put in, at the end of
the text too, a line end gets a carriage return, or a line is edited inside. -/
inductive LayoutEdit : Text → Text → Prop
  | insertLine {before line after : Text} : AtLineStart before → SilentLine line →
      LayoutEdit (before ++ after) (before ++ (line ++ '\n' :: after))
  | appendLine {text line : Text} : SilentLine line → LayoutEdit text (text ++ '\n' :: line)
  | lineEnd {before after : Text} :
      LayoutEdit (before ++ '\n' :: after) (before ++ '\r' :: '\n' :: after)
  | inLine {before line other after : Text} : AtLineStart before → AtLineEnd after →
      '\n' ∉ line → '\n' ∉ other → LineEdit line other →
      LayoutEdit (before ++ (line ++ after)) (before ++ (other ++ after))

def size (settings : Settings) : Nat :=
  settings.shared.length + (settings.sections.flatMap (·.entries)).length + settings.sections.length

end PathFilter.Settings
