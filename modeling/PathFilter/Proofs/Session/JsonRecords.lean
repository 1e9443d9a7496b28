import PathFilter.Proofs.Json.RoundTrip
import PathFilter.Proofs.Session.PathLists
import PathFilter.Proofs.Session.PrintedRecords

/-!
Records as JSON objects, one a line. A line feed ends the line of a record and is nowhere else in
it, whatever the path, so an output is cut into the lines of its records and each line is read back
as its record.
-/

set_option autoImplicit false
set_option relaxedAutoImplicit false

namespace PathFilter

private theorem Verdict.ofName?_name (verdict : Verdict) : ofName? verdict.name = some verdict := by
  cases verdict <;> decide

private theorem Utf8.le_of_mem_encode {text : Text} (printable : Json.Printable text) {b : UInt8}
    (h : b ∈ encode text) : 0x20 ≤ b := by
  by_contra hcontrol
  have hlt : b.toNat < 0x20 := by simpa [UInt8.le_iff_toNat_le] using hcontrol
  have hchar : (Char.ofNat b.toNat).toNat = b.toNat := toNat_ofNat (by omega)
  have hbyte : UInt8.ofNat (Char.ofNat b.toNat).toNat = b := by rw [hchar, UInt8.ofNat_toNat]
  rw [← hbyte, mem_encode_iff _ (by omega)] at h
  have hprinted := printable _ h
  omega

namespace Record

def jsonBytes (record : Record) : Bytes := Utf8.encode (Json.writeObject record.members)

/-- The record with some members, if these are the members of a record in their order and no others.
-/
def ofMembers? (members : List (Text × Json.Value)) : Option Record :=
  match members with
  | [(_, .text path), (_, .text name), _] => do
    let verdict ← Verdict.ofName? name
    let record : Record := ⟨path, verdict⟩
    if record.members = members then return record else none
  | _ => none

/-- The record that a line stands for, if its bytes are UTF-8 and a JSON object with the members of
a record. -/
def ofLine? (line : Bytes) : Option Record := do
  let text ← Utf8.decode? line
  let members ← Json.readObject text
  ofMembers? members

private theorem ofMembers?_members (record : Record) : ofMembers? record.members = some record := by
  simp [ofMembers?, members, Verdict.ofName?_name]

private theorem encode_line_json (record : Record) :
    Utf8.encode (record.line .json) = record.jsonBytes ++ [PathList.lineFeed] := by
  rw [line, pieces, List.flatten_cons, List.flatten_singleton, Utf8.encode_append]
  rfl

private theorem le_of_mem_jsonBytes {record : Record} {b : UInt8} (h : b ∈ record.jsonBytes) :
    0x20 ≤ b :=
  Utf8.le_of_mem_encode (Json.printable_writeObject record.members) h

private theorem lineFeed_not_mem_jsonBytes (record : Record) :
    PathList.lineFeed ∉ record.jsonBytes :=
  fun hfeed => absurd (le_of_mem_jsonBytes hfeed) (by decide)

private theorem readObject_line (record : Record) (space : Text)
    (blank : ∀ c ∈ space, Json.isSpace c = true) :
    (Utf8.decode? (record.jsonBytes ++ Utf8.encode space)).bind Json.readObject =
      some record.members := by
  have hdecode : Utf8.decode? (record.jsonBytes ++ Utf8.encode space) =
      some (Json.writeObject record.members ++ space) := by
    rw [Utf8.decode?_eq_some_iff, Utf8.encode_append]
    rfl
  rw [hdecode, Option.bind_some, Json.readObject_writeObject record.members blank]

private theorem ofLine?_jsonBytes (record : Record) : ofLine? record.jsonBytes = some record := by
  have hread := readObject_line record [] (by simp)
  have hbytes : record.jsonBytes ++ Utf8.encode [] = record.jsonBytes := List.append_nil _
  rw [hbytes] at hread
  obtain ⟨text, htext, hmembers⟩ := Option.bind_eq_some_iff.mp hread
  simp only [ofLine?, htext, hmembers, Option.bind_eq_bind, Option.bind_some, ofMembers?_members]

private theorem encode_lines_json (records : List Record) :
    Utf8.encode (records.flatMap (·.line .json)) =
      (records.map jsonBytes).flatMap (· ++ [PathList.lineFeed]) := by
  induction records with
  | nil => rfl
  | cons record records ih =>
    rw [List.flatMap_cons, Utf8.encode_append, encode_line_json, ih]
    rfl

private theorem splitOn_lines_json (records : List Record) :
    List.splitOn PathList.lineFeed (Utf8.encode (records.flatMap (·.line .json))) =
      records.map jsonBytes ++ [[]] := by
  have hfeeds : ∀ piece ∈ records.map jsonBytes, PathList.lineFeed ∉ piece := by
    intro piece hpiece
    obtain ⟨record, -, rfl⟩ := List.mem_map.mp hpiece
    exact record.lineFeed_not_mem_jsonBytes
  have hcut := Text.cut_flatMap hfeeds
  rwa [← encode_lines_json, Text.cut_eq_splitOnP] at hcut

private theorem map_ofLine?_jsonBytes (records : List Record) :
    (records.map jsonBytes).map ofLine? = records.map some := by
  rw [List.map_map]
  exact List.map_congr_left fun record _ => record.ofLine?_jsonBytes

private theorem lines_json_injective {records others : List Record}
    (h : Utf8.encode (records.flatMap (·.line .json)) =
      Utf8.encode (others.flatMap (·.line .json))) :
    records = others := by
  have hsplit := congrArg (List.splitOn PathList.lineFeed) h
  rw [splitOn_lines_json, splitOn_lines_json, List.append_left_inj] at hsplit
  have hread := congrArg (List.map ofLine?) hsplit
  rw [map_ofLine?_jsonBytes, map_ofLine?_jsonBytes] at hread
  exact List.map_injective_iff.mpr (fun _ _ => Option.some.inj) hread

end Record

namespace Session

open CommandLine (Invocation)

private theorem writeRecord_json (record : Record) (accepted : Bytes) :
    writeRecord { accepted := accepted } record .json =
      ({ accepted := accepted ++ (record.jsonBytes ++ [PathList.lineFeed]) }, .ok ()) := by
  have hprints := prints_writeRecord { accepted := accepted } record .json
  rw [Record.encode_line_json] at hprints
  exact Prod.ext hprints.sink_eq (hprints.ok_of_fits rfl)

/-- A record is written as one line: a line feed ends it, every other byte is at least a space, and
the line is the JSON object with the path, the name of the verdict and whether it accepts the path.
So the lines of the output of a run that exits with 0 are read back as the printed records in their
order, and other records give another output. -/
theorem run_json_lines :
    (∀ (path : Text) (verdict : Verdict) (accepted : Bytes), ∃ line : Bytes,
      writeRecord { accepted := accepted } ⟨path, verdict⟩ .json =
          ({ accepted := accepted ++ (line ++ [PathList.lineFeed]) }, .ok ()) ∧
        (∀ b ∈ line, 0x20 ≤ b) ∧
        (Utf8.decode? (line ++ [PathList.lineFeed])).bind Json.readObject =
          some [("path".toList, .text path), ("result".toList, .text verdict.name),
            ("accepted".toList, .flag (verdict = .included ∨ verdict = .implied))]) ∧
      (∀ (session : Session) (invocation : Invocation), session.Classifies invocation →
        invocation.json = true → session.run.value.code = 0 →
        ∃ filter paths lines, (invocation.buildFilter session.files).run.value = .ok filter ∧
          session.collectPaths invocation = .ok paths ∧
          session.run.value.output =
            Utf8.encode ((printed invocation filter paths).flatMap (·.line .json)) ∧
          List.splitOn PathList.lineFeed session.run.value.output = lines ++ [[]] ∧
          lines.map Record.ofLine? = (printed invocation filter paths).map some) ∧
      ∀ records others : List Record,
        Utf8.encode (records.flatMap (·.line .json)) = Utf8.encode (others.flatMap (·.line .json)) →
          records = others := by
  refine ⟨?_, ?_, fun records others => Record.lines_json_injective⟩
  · intro path verdict accepted
    refine ⟨Record.jsonBytes ⟨path, verdict⟩, writeRecord_json _ accepted,
      fun b => Record.le_of_mem_jsonBytes, ?_⟩
    have hflag : verdict.accepted = decide (verdict = .included ∨ verdict = .implied) := by
      rw [Bool.eq_iff_iff, Verdict.accepted_eq_true_iff, decide_eq_true_iff]
    have hread := Record.readObject_line ⟨path, verdict⟩ ['\n'] (List.forall_mem_singleton.mpr rfl)
    rw [Record.members, hflag] at hread
    exact hread
  · intro session invocation classifies json succeeds
    obtain ⟨filter, paths, hbuilt, hcollected, houtput⟩ :=
      classifies.exists_of_code_eq_zero succeeds
    have hform : RecordForm.ofInvocation invocation = .json := by
      rw [RecordForm.ofInvocation, if_pos json]
    rw [hform] at houtput
    refine ⟨filter, paths, (printed invocation filter paths).map Record.jsonBytes, hbuilt,
      hcollected, houtput, ?_, Record.map_ofLine?_jsonBytes _⟩
    rw [houtput, Record.splitOn_lines_json]

/-- Paths with a line feed, a quote, a line separator, a control character and a backslash, one of
them not accepted. A line feed inside a path is told from the end of a line. -/
theorem run_json_lines_lineFeeds :
    let session : Session :=
      { arguments := ["vcfilter", "--json", "--exclude=d/*", "a\n\"b", "\u2028\x01", "d\\e"].map
          fun word => Utf8.encode word.toList
        files := .ofReadings [] }
    let records : List Record :=
      [⟨"a\n\"b".toList, .implied⟩, ⟨"\u2028\x01".toList, .implied⟩, ⟨"d\\e".toList, .excluded⟩]
    (∃ lines, List.splitOn PathList.lineFeed session.run.value.output = lines ++ [[]] ∧
      lines.map Record.ofLine? = records.map some) ∧
      Utf8.encode ([⟨"a\nb".toList, .implied⟩].flatMap (Record.line · .json)) ≠
        Utf8.encode
          ([⟨"a".toList, .implied⟩, ⟨"b".toList, .implied⟩].flatMap (Record.line · .json)) := by
  intro session records
  let invocation : Invocation :=
    { excludes := ["d/*".toList], json := true
      paths := ["a\n\"b".toList, "\u2028\x01".toList, "d\\e".toList] }
  have classifies : session.Classifies invocation := ⟨by decide +kernel, rfl, rfl⟩
  have succeeds : session.run.value.code = 0 := by decide +kernel
  have built : (invocation.buildFilter session.files).run.value =
      .ok (invocation.filterFor session.files) := rfl
  obtain ⟨-, hruns, hdifferent⟩ := run_json_lines
  obtain ⟨filter, paths, lines, hbuilt, hcollected, -, hsplit, hread⟩ :=
    hruns session invocation classifies rfl succeeds
  obtain rfl : invocation.filterFor session.files = filter :=
    Except.ok.inj (built.symm.trans hbuilt)
  obtain rfl : invocation.paths = paths := Except.ok.inj hcollected
  refine ⟨⟨lines, hsplit, hread.trans ?_⟩, fun h => ?_⟩
  · decide +kernel
  · exact absurd (hdifferent _ _ h) (by decide)

end Session

end PathFilter
