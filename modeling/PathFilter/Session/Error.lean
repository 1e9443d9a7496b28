import PathFilter.CommandLine.Error
import PathFilter.Filter.Error
import PathFilter.Settings.Error
import PathFilter.Text.Blank

set_option autoImplicit false
set_option relaxedAutoImplicit false

namespace PathFilter

inductive RunError
  | arguments (error : CommandLine.ArgumentError)
  | filter (error : FilterError)
  | settings (error : SettingsError)
  | input (failure : ReadFailure)
  /-- The output refuses a line. -/
  | output (cause : Text)
  /-- The output refuses a JSON record. -/
  | record (cause : Text)
  deriving DecidableEq, Repr

namespace RunError

def message : RunError → Text
  | .arguments error => error.message
  | .filter error => error.message
  | .settings error => error.describe
  | .input failure => "failed to read paths from standard input: ".toList ++ failure.message
  | .output cause => "failed to write output: ".toList ++ cause
  | .record cause => "failed to encode JSON output: ".toList ++ cause

/-- The diagnostic of a run: the name of the program and the wording, which loses the blanks at its
end and a leading `error: `. -/
def diagnostic (error : RunError) : Text :=
  let wording := Text.trimEnd error.message
  "vcfilter: ".toList ++ (Text.after? "error: ".toList wording).getD wording ++ ['\n']

end RunError

end PathFilter
