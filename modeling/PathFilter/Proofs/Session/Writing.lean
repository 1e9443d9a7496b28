import PathFilter.Proofs.Filter.Decision
import PathFilter.Proofs.Text.Utf8
import PathFilter.Session.Basic

/-!
What a run writes. However some bytes are cut into pieces, writing the pieces one by one up to the
first that does not fit is writing the bytes at once. So a batch of paths writes the lines of its
paths one after the other, as far as the output takes them.
-/

set_option autoImplicit false
set_option relaxedAutoImplicit false

namespace PathFilter

namespace Sink

private theorem write_nil (sink : Sink) : sink.write [] = (sink, true) := by
  obtain ⟨accepted, room?⟩ := sink
  cases room? <;> simp [write]

private theorem write_append (sink : Sink) (left right : Bytes) :
    sink.write (left ++ right) =
      match sink.write left with
      | (sink, true) => sink.write right
      | (sink, false) => (sink, false) := by
  obtain ⟨accepted, room?⟩ := sink
  cases room? with
  | none => simp [write]
  | some room =>
    -- if the beginning fits, the rest has what is left of the room; if not, no room is left
    by_cases hleft : left.length ≤ room
    · have hfits : left.length + right.length ≤ room ↔ right.length ≤ room - left.length := by omega
      simp [write, hleft, List.take_append, List.take_of_length_le hleft, Nat.sub_sub, hfits]
    · have hfull : ¬ left.length + right.length ≤ room := by omega
      have hroom : room - left.length = 0 := by omega
      have hroom' : room - (left.length + right.length) = 0 := by omega
      simp [write, hleft, hfull, hroom, hroom', List.take_append]

private theorem writeEach_eq_write (sink : Sink) (pieces : List Bytes) :
    sink.writeEach pieces = sink.write pieces.flatten := by
  induction pieces generalizing sink with
  | nil => exact (write_nil sink).symm
  | cons piece rest ih =>
    rw [List.flatten_cons, write_append, writeEach]
    rcases sink.write piece with ⟨after, _ | _⟩
    · rfl
    · exact ih after

theorem accepted_write_of_fits {sink : Sink} {bytes : Bytes} (h : (sink.write bytes).2 = true) :
    (sink.write bytes).1.accepted = sink.accepted ++ bytes := by
  rw [accepted_write]
  cases hroom : sink.room? with
  | none => rfl
  | some room =>
    have hfits : bytes.length ≤ room := by simpa [write, hroom] using h
    simp only [List.take_of_length_le hfits]

end Sink

namespace CommandLine.Invocation

/-- What a path adds to the output, by its verdict: a JSON object on a line, the path on a line, or
both the verdict and the path on a line. Where only accepted paths are printed, the others add
nothing. -/
def recordFor (invocation : Invocation) (path : Text) (verdict : Verdict) : Text :=
  if invocation.acceptedOnly ∧ ¬ (verdict = .included ∨ verdict = .implied) then []
  else if invocation.json then
    "\x7b\"path\":".toList ++ Json.writeString path ++
      ",\"result\":\"".toList ++ verdict.name ++
      "\",\"accepted\":".toList ++
      (if verdict = .included ∨ verdict = .implied then "true".toList else "false".toList) ++
      "\x7d\n".toList
  else if invocation.acceptedOnly then path ++ ['\n']
  else verdict.name ++ '\t' :: path ++ ['\n']

def recordOf (invocation : Invocation) (filter : Filter) (path : Text) : Text :=
  invocation.recordFor path (filter.classify path .none).value

end CommandLine.Invocation

theorem Verdict.accepted_eq_true_iff {verdict : Verdict} :
    verdict.accepted = true ↔ verdict = .included ∨ verdict = .implied := by
  cases verdict <;> simp [accepted]

private theorem Verdict.writeString_name (verdict : Verdict) :
    Json.writeString verdict.name = '"' :: verdict.name ++ ['"'] := by
  cases verdict <;> decide

namespace Session

open CommandLine (Invocation)

theorem recordFor_of_not_printed {invocation : Invocation} {verdict : Verdict}
    (h : isPrinted invocation verdict = false) (path : Text) :
    invocation.recordFor path verdict = [] := by
  simp only [isPrinted, Bool.or_eq_false_iff, Bool.not_eq_false'] at h
  rw [Invocation.recordFor, if_pos ⟨h.1, by rw [← Verdict.accepted_eq_true_iff, h.2]; decide⟩]

private theorem writeObject_members (path : Text) (verdict : Verdict) :
    Json.writeObject (Record.members ⟨path, verdict⟩) =
      "\x7b\"path\":".toList ++ Json.writeString path ++ ",\"result\":\"".toList ++ verdict.name ++
        "\",\"accepted\":".toList ++
        (if verdict = .included ∨ verdict = .implied then "true".toList else "false".toList) ++
        ['\x7d'] := by
  have hpath : Json.writeString "path".toList = "\"path\"".toList := by decide
  have hresult : Json.writeString "result".toList = "\"result\"".toList := by decide
  have haccepted : Json.writeString "accepted".toList = "\"accepted\"".toList := by decide
  have htext : ∀ text, Json.writeValue (.text text) = Json.writeString text := fun _ => rfl
  have hflag : Json.writeValue (.flag verdict.accepted) =
      if verdict = .included ∨ verdict = .implied then "true".toList else "false".toList := by
    cases verdict <;> rfl
  simp only [Json.writeObject, Record.members, Json.writeMembers, Json.writeMember, htext, hflag,
    Verdict.writeString_name, hpath, hresult, haccepted]
  simp only [List.append_assoc, List.cons_append, List.nil_append]
  rfl

theorem recordFor_of_printed {invocation : Invocation} {verdict : Verdict}
    (h : isPrinted invocation verdict = true) (path : Text) :
    invocation.recordFor path verdict =
      Record.line ⟨path, verdict⟩ (.ofInvocation invocation) := by
  have hprinted :
      ¬ (invocation.acceptedOnly = true ∧ ¬ (verdict = .included ∨ verdict = .implied)) := by
    rw [← Verdict.accepted_eq_true_iff]
    rintro ⟨honly, haccepted⟩
    simp [isPrinted, honly, haccepted] at h
  rw [Invocation.recordFor, if_neg hprinted, RecordForm.ofInvocation, Record.line]
  by_cases hjson : invocation.json = true
  · rw [if_pos hjson, if_pos hjson, Record.pieces, writeObject_members, List.flatten_cons,
      List.flatten_singleton, List.append_assoc _ ['\x7d']]
    rfl
  · rw [if_neg hjson, if_neg hjson]
    split_ifs <;> simp [Record.pieces]

/-- A part of a run writes some bytes and gives a value if they all fit: the output takes what fits
of them, and the part fails if that is not all. -/
structure Prints {α : Type} (sink : Sink) (bytes : Bytes) (value : α) (written : Written α) :
    Prop where
  sink_eq : written.1 = (sink.write bytes).1
  ok_of_fits : (sink.write bytes).2 = true → written.2 = .ok value
  error_of_full : (sink.write bytes).2 = false → ∃ error, written.2 = .error error

theorem Prints.value_eq {α : Type} {sink after : Sink} {bytes : Bytes} {value other : α}
    (prints : Prints sink bytes value (after, .ok other)) : other = value := by
  cases hfits : (sink.write bytes).2 with
  | true => exact Except.ok.inj (prints.ok_of_fits hfits)
  | false =>
    obtain ⟨error, herror⟩ := prints.error_of_full hfits
    exact absurd herror (by simp)

theorem prints_nothing {α : Type} (sink : Sink) (value : α) :
    Prints sink [] value (sink, .ok value) := by
  constructor <;> simp [Sink.write_nil]

theorem prints_writePieces (sink : Sink) (pieces : List Text) (refused : Text → RunError) :
    Prints sink (Utf8.encode pieces.flatten) () (writePieces sink pieces refused) := by
  have hbytes :
      sink.writeEach (pieces.map Utf8.encode) = sink.write (Utf8.encode pieces.flatten) := by
    rw [Sink.writeEach_eq_write, Utf8.flatten_map_encode]
  rw [writePieces, hbytes]
  cases hwrite : sink.write (Utf8.encode pieces.flatten) with
  | mk after fits => cases fits <;> constructor <;> simp [hwrite]

def andThen {α β : Type} (first : Written α) (next : Sink → α → Written β) : Written β :=
  match first with
  | (after, .error error) => (after, .error error)
  | (after, .ok value) => next after value

/-- Two parts after each other write their bytes after each other. -/
theorem Prints.andThen {α β : Type} {sink : Sink} {left right : Bytes} {value : α} {result : β}
    {first : Written α} {next : Sink → α → Written β} (hfirst : Prints sink left value first)
    (hnext : ∀ after, Prints after right result (next after value)) :
    Prints sink (left ++ right) result (Session.andThen first next) := by
  obtain ⟨after, outcome⟩ := first
  have hafter : after = (sink.write left).1 := hfirst.sink_eq
  have happend := sink.write_append left right
  cases hwrite : sink.write left with
  | mk full fits =>
    rw [hwrite] at hafter happend
    cases fits with
    | false =>
      obtain ⟨error, herror⟩ := hfirst.error_of_full (by rw [hwrite])
      simp only at herror hafter happend
      rw [herror, hafter]
      constructor <;> simp [happend, Session.andThen]
    | true =>
      have hok : outcome = .ok value := hfirst.ok_of_fits (by rw [hwrite])
      simp only at hafter happend
      have hrest := hnext full
      rw [hok, hafter]
      exact ⟨by rw [happend]; exact hrest.sink_eq,
        fun h => hrest.ok_of_fits (by rwa [happend] at h),
        fun h => hrest.error_of_full (by rwa [happend] at h)⟩

theorem prints_writeRecord (sink : Sink) (record : Record) (form : RecordForm) :
    Prints sink (Utf8.encode (record.line form)) () (writeRecord sink record form) := by
  cases form with
  | json =>
    have hline : Utf8.encode (record.line .json) =
        Utf8.encode [Json.writeObject record.members].flatten ++ Utf8.encode [['\n']].flatten := by
      rw [← Utf8.encode_append, ← List.flatten_append]
      rfl
    have hwrite : writeRecord sink record .json =
        andThen (writePieces sink [Json.writeObject record.members] .record) fun after _ =>
          writePieces after [['\n']] .output := by
      simp only [writeRecord, andThen]
      rcases writePieces sink [Json.writeObject record.members] .record with
        ⟨after, error | value⟩ <;> rfl
    rw [hline, hwrite]
    refine (prints_writePieces sink _ .record).andThen fun after => ?_
    exact prints_writePieces after _ .output
  | bare => exact prints_writePieces sink _ _
  | labelled => exact prints_writePieces sink _ _

def tallyOf (filter : Filter) (tally : Tally) (paths : List Text) : Tally :=
  paths.foldl (fun tally path => tally.record (filter.classify path .none).value) tally

private theorem value_classifyPaths_cons {invocation : Invocation} {filter : Filter} {path : Text}
    (printed : isPrinted invocation (filter.classify path .none).value = true) (sink : Sink)
    (tally : Tally) (rest : List Text) :
    (classifyPaths invocation filter sink tally (path :: rest)).value =
      andThen (writeRecord sink ⟨path, (filter.classify path .none).value⟩
        (.ofInvocation invocation)) fun after _ =>
          (classifyPaths invocation filter after
            (tally.record (filter.classify path .none).value) rest).value := by
  rw [classifyPaths, Logged.value_bind, if_pos printed]
  rcases writeRecord sink _ (.ofInvocation invocation) with ⟨after, error | value⟩ <;> rfl

theorem prints_classifyPaths (invocation : Invocation) (filter : Filter) (sink : Sink)
    (tally : Tally) (paths : List Text) :
    Prints sink (Utf8.encode (paths.flatMap (invocation.recordOf filter)))
      (tallyOf filter tally paths) (classifyPaths invocation filter sink tally paths).value := by
  induction paths generalizing sink tally with
  | nil => exact prints_nothing sink tally
  | cons path rest ih =>
    have hbytes : Utf8.encode ((path :: rest).flatMap (invocation.recordOf filter)) =
        Utf8.encode (invocation.recordOf filter path) ++
          Utf8.encode (rest.flatMap (invocation.recordOf filter)) := List.flatMap_append
    rw [hbytes, Invocation.recordOf]
    -- a path that is not printed leaves the output as it is, so the rest writes to the same one
    cases hprinted : isPrinted invocation (filter.classify path .none).value with
    | false =>
      rw [recordFor_of_not_printed hprinted, classifyPaths, Logged.value_bind, hprinted]
      exact ih sink _
    | true =>
      rw [recordFor_of_printed hprinted, value_classifyPaths_cons hprinted]
      exact (prints_writeRecord ..).andThen fun after => ih after _

end Session

end PathFilter
