import Mathlib.Data.List.DropRight
import PathFilter.Proofs.Files.Texts
import PathFilter.Proofs.Text.Lines
import PathFilter.Session.PathList

set_option autoImplicit false
set_option relaxedAutoImplicit false

namespace PathFilter

namespace PathList

/-- The non-empty lines of a text, without the carriage returns at their ends. -/
def pathsOf (text : Text) : List Text :=
  ((Text.cut (· == '\n') text).map dropReturns).filter fun path => !path.isEmpty

private theorem feed_mem_encode_iff {text : Text} : lineFeed ∈ Utf8.encode text ↔ '\n' ∈ text :=
  Utf8.mem_encode_iff '\n' (by decide)

private theorem readPieces_of_no_feed {line : Bytes} (h : lineFeed ∉ line) :
    readPieces line = (Files.asText line).map ([·]) := by
  rw [readPieces, Text.cut_of_not_mem h, List.mapM_cons, List.mapM_nil]
  cases Files.asText line <;> rfl

private theorem readPieces_append_feed {line : Bytes} (h : lineFeed ∉ line) (rest : Bytes) :
    readPieces (line ++ lineFeed :: rest) =
      (Files.asText line).bind fun first => (readPieces rest).map (first :: ·) := by
  rw [readPieces, Text.cut_append_mark h, List.mapM_cons, readPieces]
  cases Files.asText line with
  | error failure => rfl
  | ok first => cases (Text.cut (· == lineFeed) rest).mapM Files.asText <;> rfl

private theorem readPieces_encode (text : Text) :
    readPieces (Utf8.encode text) = .ok (Text.cut (· == '\n') text) := by
  induction text using Text.cut_induction '\n' with
  | last line hline =>
    have hbytes : lineFeed ∉ Utf8.encode line := mt feed_mem_encode_iff.mp hline
    rw [readPieces_of_no_feed hbytes, Files.asText_eq_ok_iff.mpr rfl, Text.cut_of_not_mem hline]
    rfl
  | ended line rest hline ih =>
    have hbytes : lineFeed ∉ Utf8.encode line := mt feed_mem_encode_iff.mp hline
    have hencode : Utf8.encode (line ++ '\n' :: rest) =
        Utf8.encode line ++ lineFeed :: Utf8.encode rest := Utf8.encode_append line ('\n' :: rest)
    rw [hencode, readPieces_append_feed hbytes, Files.asText_eq_ok_iff.mpr rfl, ih,
      Text.cut_append_mark hline]
    rfl

private theorem exists_text_of_readPieces {bytes : Bytes} {pieces : List Text}
    (h : readPieces bytes = .ok pieces) : ∃ text, bytes = Utf8.encode text := by
  induction bytes using Text.cut_induction lineFeed generalizing pieces with
  | last line hline =>
    rw [readPieces_of_no_feed hline] at h
    cases htext : Files.asText line with
    | error failure => simp [htext, Except.map] at h
    | ok text => exact ⟨text, Files.asText_eq_ok_iff.mp htext⟩
  | ended line rest hline ih =>
    rw [readPieces_append_feed hline] at h
    cases htext : Files.asText line with
    | error failure => simp [htext, Except.bind] at h
    | ok first =>
      cases hrest : readPieces rest with
      | error failure => simp [htext, hrest, Except.bind, Except.map] at h
      | ok others =>
        obtain ⟨text, rfl⟩ := ih hrest
        rw [Files.asText_eq_ok_iff.mp htext]
        exact ⟨first ++ '\n' :: text, (Utf8.encode_append first ('\n' :: text)).symm⟩

private theorem eq_notText_of_readPieces {bytes : Bytes} {failure : ReadFailure}
    (h : readPieces bytes = .error failure) : failure = .notText := by
  induction bytes using Text.cut_induction lineFeed with
  | last line hline =>
    rw [readPieces_of_no_feed hline] at h
    cases htext : Files.asText line with
    | ok text => simp [htext, Except.map] at h
    | error other =>
      rw [(Files.asText_eq_error_iff.mp htext).1] at htext
      simpa [htext, Except.map, eq_comm] using h
  | ended line rest hline ih =>
    rw [readPieces_append_feed hline] at h
    cases htext : Files.asText line with
    | error other =>
      rw [(Files.asText_eq_error_iff.mp htext).1] at htext
      simpa [htext, Except.bind, eq_comm] using h
    | ok first =>
      cases hrest : readPieces rest with
      | ok others => simp [htext, hrest, Except.bind, Except.map] at h
      | error other =>
        refine ih ?_
        rw [hrest]
        simpa [htext, hrest, Except.bind, Except.map] using h

private theorem dropReturns_dropReturn (line : Text) :
    dropReturns (Text.dropReturn line) = dropReturns line := by
  rw [Text.dropReturn]
  split_ifs with hreturn
  · obtain ⟨front, rfl⟩ := List.getLast?_eq_some_iff.mp hreturn
    rw [List.dropLast_concat]
    exact (List.rdropWhile_concat_pos (· == '\r') front '\r' rfl).symm
  · rfl

/-- A carriage return that ends a line with its line feed would be left out anyway, and so would the
empty line behind the last line feed. -/
theorem pathsOf_lines (text : Text) :
    ((Text.lines text).map dropReturns).filter (fun path => !path.isEmpty) = pathsOf text := by
  rw [pathsOf, Text.lines]
  induction Text.cut (· == '\n') text using Text.linesOfPieces.induct with
  | case1 => rfl
  | case2 last hlast =>
    rw [List.isEmpty_iff] at hlast
    rw [hlast]
    rfl
  | case3 last hlast => rw [Text.linesOfPieces, if_neg hlast]
  | case4 line next rest ih =>
    rw [Text.linesOfPieces, List.map_cons, List.map_cons, List.filter_cons, List.filter_cons,
      dropReturns_dropReturn, ih]

private theorem readLines_encode (text : Text) :
    readLines (Utf8.encode text) = .ok (Text.lines text) := by
  rw [readLines, readPieces_encode]
  rfl

theorem read_encode (text : Text) : read (Utf8.encode text) = .ok (pathsOf text) := by
  rw [read, readLines_encode, ← pathsOf_lines]

private theorem read_of_readPieces_error {bytes : Bytes} {failure : ReadFailure}
    (h : readPieces bytes = .error failure) : read bytes = .error failure := by
  rw [read, readLines, h]
  rfl

theorem read_eq_error_iff {bytes : Bytes} {failure : ReadFailure} :
    read bytes = .error failure ↔ failure = .notText ∧ ∀ text, bytes ≠ Utf8.encode text := by
  cases hpieces : readPieces bytes with
  | ok pieces =>
    obtain ⟨text, rfl⟩ := exists_text_of_readPieces hpieces
    rw [read_encode]
    exact ⟨fun h => absurd h (by simp), fun h => absurd rfl (h.2 text)⟩
  | error other =>
    have hother : other = .notText := eq_notText_of_readPieces hpieces
    have hbytes : ∀ text, bytes ≠ Utf8.encode text := by
      rintro text rfl
      rw [readPieces_encode] at hpieces
      exact absurd hpieces (by simp)
    simp [read_of_readPieces_error hpieces, hother, hbytes, eq_comm]

end PathList

end PathFilter
