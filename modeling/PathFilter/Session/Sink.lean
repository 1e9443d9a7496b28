import PathFilter.Text.Utf8

/-!
An output that may be limited. A write that does not fit leaves the part that fits and fails.
-/

set_option autoImplicit false
set_option relaxedAutoImplicit false

namespace PathFilter

/-- What an output has accepted, and how many bytes more it accepts; without a number, any. -/
structure Sink where
  accepted : Bytes := []
  room? : Option Nat := none
  deriving DecidableEq, Repr

namespace Sink

/-- The cause that a full output reports. -/
def fullMessage : Text := "output is full".toList

def write (sink : Sink) (bytes : Bytes) : Sink × Bool :=
  match sink.room? with
  | none => ({ sink with accepted := sink.accepted ++ bytes }, true)
  | some room =>
    ({ accepted := sink.accepted ++ bytes.take room, room? := some (room - bytes.length) },
      bytes.length ≤ room)

/-- Writes pieces in order up to the first that does not fit, and tells whether all of them were
accepted. -/
def writeEach (sink : Sink) : List Bytes → Sink × Bool
  | [] => (sink, true)
  | piece :: rest =>
    match sink.write piece with
    | (sink, true) => sink.writeEach rest
    | (sink, false) => (sink, false)

/-- An output accepts the beginning of what is written that fits. -/
theorem accepted_write (sink : Sink) (bytes : Bytes) :
    (sink.write bytes).1.accepted =
      sink.accepted ++ (match sink.room? with
        | none => bytes
        | some room => bytes.take room) := by
  unfold write
  split <;> simp_all

end Sink

end PathFilter
