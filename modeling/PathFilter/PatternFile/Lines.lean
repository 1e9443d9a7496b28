import PathFilter.PatternFile.Basic

/-!
Pattern files by lines. A line ends at a line feed, at a carriage return, or at the two together,
and `patternsByLines` reads a file line by line with these ends. `Loadable` says which texts a line
can hold as a pattern, and `Holds` which files hold a list of patterns.
-/

set_option autoImplicit false
set_option relaxedAutoImplicit false

namespace PathFilter.PatternFile

/-- The lines of a file; a carriage return and a line feed after it end one line together. -/
def linesOf : Text → List Text
  | [] => [[]]
  | '\r' :: '\n' :: rest => [] :: linesOf rest
  | c :: rest => if isLineEnd c then [] :: linesOf rest else Text.consFirst c (linesOf rest)

/-- The pattern that a line holds, if it holds one. -/
def patternOf? (line : Text) : Option Text :=
  let content := Text.trim line
  if Text.isComment content then none else some content

def patternsByLines (text : Text) : List Text := (linesOf text).filterMap patternOf?

/-- A line can hold the text as a pattern. -/
structure Loadable (text : Text) : Prop where
  ne_nil : text ≠ []
  trimmed : Text.trim text = text
  oneLine : ∀ c ∈ text, c ≠ '\r' ∧ c ≠ '\n'
  noComment : text.head? ≠ some '#' ∧ text.head? ≠ some ';'

inductive LineEnd : Text → Prop
  | feed : LineEnd ['\n']
  | carriage : LineEnd ['\r']
  | both : LineEnd ['\r', '\n']

/-- Blanks that do not end a line. -/
def Padding (text : Text) : Prop := ∀ c ∈ text, Text.isBlank c = true ∧ isLineEnd c = false

/-- A line without its end holds a pattern or nothing. -/
inductive LineHolds : List Text → Text → Prop
  | pattern {text before after : Text} :
      Loadable text → Padding before → Padding after → LineHolds [text] (before ++ text ++ after)
  | blank {padding : Text} : Padding padding → LineHolds [] padding
  | comment {padding rest : Text} {mark : Char} :
      Padding padding → mark = '#' ∨ mark = ';' → (∀ c ∈ rest, isLineEnd c = false) →
      LineHolds [] (padding ++ mark :: rest)

/-- A file holds a list of patterns: line by line, the end of the last line being optional. -/
inductive Holds : List Text → Text → Prop
  | last {patterns : List Text} {line : Text} : LineHolds patterns line → Holds patterns line
  | line {patterns rest : List Text} {line ending text : Text} :
      LineHolds patterns line → LineEnd ending → Holds rest text →
      Holds (patterns ++ rest) (line ++ ending ++ text)

end PathFilter.PatternFile
