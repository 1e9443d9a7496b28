import PathFilter.CommandLine.Options
import PathFilter.Text.Terminal

/-!
Why a command line is refused, and the wording of each cause. The wording is the first line of what
is told, with a second one for an option that is not there; the advice behind it, which consists of
tips, the usage and a pointer to the help, is left out. Parts of the command line appear in the
wording only as far as a terminal prints them, each part on its own.
-/

set_option autoImplicit false
set_option relaxedAutoImplicit false

namespace PathFilter.CommandLine

inductive ArgumentError
  /-- An option that does not exist, as far as its name goes. -/
  | unknown (argument : Text)
  | missingValue (option : ValueOption)
  /-- A value attached to an option that takes none. -/
  | unneededValue (option : CommandOption) (value : Text)
  | repeated (option : CommandOption)
  /-- An option that another one calls for is not there. -/
  | missing (option : ValueOption)
  deriving DecidableEq, Repr

/-- A part of the command line between quotation marks, as far as a terminal prints it. A sequence
that the part leaves open ends with the part. -/
def quoted (part : Text) : Text := '\x27' :: Text.Terminal.printed part ++ ['\x27']

def ArgumentError.message : ArgumentError → Text
  | .unknown argument => "error: unexpected argument ".toList ++ quoted argument ++ " found".toList
  | .missingValue option =>
    "error: a value is required for ".toList ++ quoted option.describe ++
      " but none was supplied".toList
  | .unneededValue option value =>
    "error: unexpected value ".toList ++ quoted value ++ " for ".toList ++ quoted option.describe ++
      " found; no more were expected".toList
  | .repeated option =>
    "error: the argument ".toList ++ quoted option.describe ++
      " cannot be used multiple times".toList
  | .missing option =>
    "error: the following required arguments were not provided:\n  ".toList ++ option.describe

end PathFilter.CommandLine
