import Mathlib.Data.List.DropRight
import PathFilter.Proofs.Session.Inputs

set_option autoImplicit false
set_option relaxedAutoImplicit false

namespace PathFilter

namespace Text

variable {α : Type} [DecidableEq α] {mark : α}

private theorem not_mem_of_mem_cut {text piece : List α} (h : piece ∈ cut (· == mark) text) :
    mark ∉ piece := by
  intro hmark
  have hcut : (mark == mark) = false := eq_false_of_mem_cut h mark hmark
  simp at hcut

theorem cut_flatMap {pieces : List (List α)} (h : ∀ piece ∈ pieces, mark ∉ piece) :
    cut (· == mark) (pieces.flatMap (· ++ [mark])) = pieces ++ [[]] := by
  induction pieces with
  | nil => rfl
  | cons piece rest ih =>
    have hpiece : mark ∉ piece := h piece List.mem_cons_self
    have hrest := ih fun other hother => h other (List.mem_cons_of_mem piece hother)
    rw [List.flatMap_cons, List.append_assoc, List.singleton_append, cut_append_mark hpiece, hrest,
      List.cons_append]

end Text

namespace PathList

private theorem mem_of_mem_dropReturns {c : Char} {line : Text} (h : c ∈ dropReturns line) :
    c ∈ line := by
  have hfront : dropReturns line <+: line := List.rdropWhile_prefix (· == '\r') line
  exact hfront.subset h

private theorem getLast?_dropReturns (line : Text) : (dropReturns line).getLast? ≠ some '\r' := by
  intro hlast
  obtain ⟨front, hline⟩ := List.getLast?_eq_some_iff.mp hlast
  have hne : dropReturns line ≠ [] := by simp [hline]
  have hreturn := List.rdropWhile_last_not (· == '\r') line hne
  have hgetLast : (dropReturns line).getLast hne = '\r' := by simp [hline]
  exact hreturn (beq_iff_eq.mpr hgetLast)

private theorem dropReturns_eq_self {line : Text} (h : line.getLast? ≠ some '\r') :
    dropReturns line = line := by
  refine List.rdropWhile_eq_self_iff.mpr fun hne hreturn => h ?_
  rw [List.getLast?_eq_some_getLast hne, beq_iff_eq.mp hreturn]

theorem listable_of_mem_pathsOf {text path : Text} (h : path ∈ pathsOf text) : Listable path := by
  obtain ⟨hmem, hne⟩ := List.mem_filter.mp h
  obtain ⟨line, hline, rfl⟩ := List.mem_map.mp hmem
  refine ⟨by simpa using hne, ?_, getLast?_dropReturns line⟩
  intro hfeed
  exact Text.not_mem_of_mem_cut hline (mem_of_mem_dropReturns hfeed)

theorem pathsOf_flatMap {paths : List Text} (h : ∀ path ∈ paths, Listable path) :
    pathsOf (paths.flatMap (· ++ ['\n'])) = paths := by
  have hreturns : paths.map dropReturns = paths := by
    refine (List.map_congr_left fun path hpath => ?_).trans (List.map_id paths)
    exact dropReturns_eq_self (h path hpath).noReturn
  have hnonempty : paths.filter (fun path => !path.isEmpty) = paths := by
    refine List.filter_eq_self.mpr fun path hpath => ?_
    simpa using (h path hpath).ne_nil
  rw [pathsOf, Text.cut_flatMap fun path hpath => (h path hpath).oneLine, List.map_append,
    List.filter_append, hreturns, hnonempty]
  exact List.append_nil paths

private theorem pathsOf_append_end {line ending : Text} (oneLine : '\n' ∉ line)
    (ends : LineEnd ending) (rest : Text) :
    pathsOf (line ++ ending ++ rest) = pathsOf line ++ pathsOf rest := by
  cases ends with
  | feed =>
    rw [List.append_assoc, List.singleton_append, pathsOf, Text.cut_append_mark oneLine, pathsOf,
      Text.cut_of_not_mem oneLine, pathsOf, ← List.filter_append]
    rfl
  | both =>
    have hline : '\n' ∉ line ++ ['\r'] := by simp [oneLine]
    have hreturn : dropReturns (line ++ ['\r']) = dropReturns line :=
      List.rdropWhile_concat_pos (· == '\r') line '\r' rfl
    have htext : line ++ ['\r', '\n'] ++ rest = line ++ ['\r'] ++ '\n' :: rest := by simp
    rw [htext, pathsOf, Text.cut_append_mark hline, pathsOf, Text.cut_of_not_mem oneLine, pathsOf,
      ← List.filter_append, List.map_cons, hreturn]
    rfl

private theorem pathsOf_of_listable {path : Text} (listable : Listable path) :
    pathsOf path = [path] := by
  rw [pathsOf, Text.cut_of_not_mem listable.oneLine, List.map_singleton,
    dropReturns_eq_self listable.noReturn]
  simp [listable.ne_nil]

private theorem Lists.pathsOf_eq {paths : List Text} {text : Text} (lists : Lists paths text) :
    pathsOf text = paths := by
  induction lists with
  | nil => rfl
  | @empty paths ending text ends _ ih =>
    have hempty := pathsOf_append_end List.not_mem_nil ends text
    rw [List.nil_append] at hempty
    rw [hempty, ih]
    rfl
  | path listable ends _ ih =>
    rw [pathsOf_append_end listable.oneLine ends, pathsOf_of_listable listable, ih,
      List.singleton_append]
  | last listable => exact pathsOf_of_listable listable

private theorem pathsOf_eq_splitOn (text : Text) :
    pathsOf text =
      ((List.splitOn '\n' text).map (List.rdropWhile (· == '\r'))).filter
        fun path => path ≠ [] := by
  have hempty : (fun path : Text => !path.isEmpty) = fun path => decide (path ≠ []) := by
    funext path
    cases path <;> rfl
  rw [pathsOf, Text.cut_eq_splitOnP, hempty]
  rfl

/-- Bytes are read as paths if and only if they are UTF-8 as a whole. The paths are then the
non-empty pieces between line feeds, in order, without the carriage returns at their ends. So a text
that lists paths one a line, with empty lines anywhere, is read as just these paths. -/
theorem read_bytes (bytes : Bytes) :
    ((∃ paths, read bytes = .ok paths) ↔ ∃ text, bytes = Utf8.encode text) ∧
      (∀ text, bytes = Utf8.encode text →
        read bytes = .ok (((List.splitOn '\n' text).map (List.rdropWhile (· == '\r'))).filter
          fun path => path ≠ [])) ∧
      ∀ paths text, Lists paths text → bytes = Utf8.encode text → read bytes = .ok paths := by
  refine ⟨⟨?_, ?_⟩, ?_, ?_⟩
  · rintro ⟨paths, hpaths⟩
    by_contra hnone
    have herror : read bytes = .error .notText :=
      read_eq_error_iff.mpr ⟨rfl, fun text htext => hnone ⟨text, htext⟩⟩
    rw [herror] at hpaths
    exact absurd hpaths (by simp)
  · rintro ⟨text, rfl⟩
    exact ⟨pathsOf text, read_encode text⟩
  · rintro text rfl
    rw [read_encode, pathsOf_eq_splitOn]
  · rintro paths text lists rfl
    rw [read_encode, lists.pathsOf_eq]

/-- Both line ends, empty lines, and a last line without an end. Blanks, a tab and a carriage return
inside a path are kept; two carriage returns at the end of a line are not. -/
theorem read_bytes_mixed :
    let text := ['\n'] ++ ("a.c".toList ++ ['\r', '\n'] ++
      (['\r', '\n'] ++ (" b\tc ".toList ++ ['\n'] ++ "d\re".toList)))
    let paths := ["a.c".toList, " b\tc ".toList, "d\re".toList]
    Lists paths text ∧ read (Utf8.encode text) = .ok paths ∧
      read (Utf8.encode "a.c\r\r\n b\tc \n\r\nd\re\r".toList) = .ok paths := by
  intro text paths
  have lists : Lists paths text :=
    .empty .feed (.path ⟨by decide, by decide, by decide⟩ .both
      (.empty .both (.path ⟨by decide, by decide, by decide⟩ .feed
        (.last ⟨by decide, by decide, by decide⟩))))
  obtain ⟨-, -, hlists⟩ := read_bytes (Utf8.encode text)
  obtain ⟨-, hread, -⟩ := read_bytes (Utf8.encode "a.c\r\r\n b\tc \n\r\nd\re\r".toList)
  exact ⟨lists, hlists paths text lists rfl, (hread _ rfl).trans (by decide +kernel)⟩

end PathList

end PathFilter
