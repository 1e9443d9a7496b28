import PathFilter.CommandLine.Invocation
import PathFilter.Json.Writer
import PathFilter.Verdict

/-!
What is printed for a path: a JSON object, the bare path where only accepted paths are printed, or
the verdict and the path.
-/

set_option autoImplicit false
set_option relaxedAutoImplicit false

namespace PathFilter

inductive RecordForm
  | json
  | bare
  | labelled
  deriving DecidableEq, Repr

def RecordForm.ofInvocation (invocation : CommandLine.Invocation) : RecordForm :=
  if invocation.json then .json else if invocation.acceptedOnly then .bare else .labelled

structure Record where
  path : Text
  verdict : Verdict
  deriving DecidableEq, Repr

namespace Record

def members (record : Record) : List (Text × Json.Value) :=
  [("path".toList, .text record.path), ("result".toList, .text record.verdict.name),
    ("accepted".toList, .flag record.verdict.accepted)]

/-- The pieces in which a record is written; the last one is its line end. -/
def pieces (record : Record) : RecordForm → List Text
  | .json => [Json.writeObject record.members, ['\n']]
  | .bare => [record.path, ['\n']]
  | .labelled => [record.verdict.name, ['\t'], record.path, ['\n']]

def line (record : Record) (form : RecordForm) : Text := (record.pieces form).flatten

end Record

end PathFilter
