import PathFilter.Files.Basic

set_option autoImplicit false
set_option relaxedAutoImplicit false

namespace PathFilter

/-- An argument that no filter takes. -/
inductive InvalidArgument
  /-- A text cut to a length cannot stay with the caller. -/
  | borrowedCut
  | zeroLength
  /-- The text has no beginning of that many bytes. -/
  | badLength
  | unknownRole
  deriving DecidableEq, Repr

def InvalidArgument.message : InvalidArgument → Text
  | .borrowedCut => "a length-bounded pattern cannot be borrowed".toList
  | .zeroLength => "pattern length must be non-zero".toList
  | .badLength => "pattern length exceeds the text or splits a character".toList
  | .unknownRole => "unknown pattern kind".toList

namespace InvalidArgument

private def all : List InvalidArgument := [.borrowedCut, .zeroLength, .badLength, .unknownRole]

private theorem mem_all (reason : InvalidArgument) : reason ∈ all := by
  cases reason <;> decide

private theorem message_inj_of_mem :
    ∀ reason ∈ all, ∀ other ∈ all, reason.message = other.message → reason = other := by
  decide +kernel

/-- The wording alone tells which reason it was. -/
theorem message_injective : Function.Injective message := fun reason other h =>
  message_inj_of_mem reason (mem_all reason) other (mem_all other) h

end InvalidArgument

inductive FilterError
  | invalidArgument (reason : InvalidArgument)
  /-- A pattern file gives no text. -/
  | unreadable (file : FileName) (failure : ReadFailure)
  /-- A source of ignore patterns fails with some text. -/
  | ignoreSource (repository : Text) (cause : Text)
  deriving DecidableEq, Repr

namespace FilterError

def source? : FilterError → Option Text
  | .invalidArgument _ => none
  | .unreadable _ failure => some failure.message
  | .ignoreSource _ cause => some cause

def message : FilterError → Text
  | .invalidArgument reason => "invalid argument: ".toList ++ reason.message
  | .unreadable file failure =>
    "failed to read pattern file '".toList ++ file.text ++ "': ".toList ++ failure.message
  | .ignoreSource repository cause =>
    "failed to load ignore settings for repository '".toList ++ repository ++ "': ".toList ++ cause

def isInvalidArgument : FilterError → Bool
  | .invalidArgument _ => true
  | .unreadable .. | .ignoreSource .. => false

end FilterError

end PathFilter
