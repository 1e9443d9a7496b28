import PathFilter.Filter.Load
import PathFilter.Settings.Parser

set_option autoImplicit false
set_option relaxedAutoImplicit false

namespace PathFilter.Settings

def ofFile (files : Files) (name : FileName) : Logged (Except SettingsError Settings) :=
  match files.readText name with
  | .error failure => pure (.error (.unreadable name failure))
  | .ok text =>
    match parse text (some name) with
    | .error error => pure (.error error)
    | .ok settings => do
      Logged.emit (.settingsLoaded name settings.sections.length)
      pure (.ok settings)

def source (settings : Settings) : IgnoreSource where
  ignores repository := pure (.ok (settings.ignores repository))

/-- A settings file as a source, read anew at each question. -/
def fileSource (files : Files) (name : FileName) : IgnoreSource where
  ignores repository := do
    match ← ofFile files name with
    | .error error => pure (.error error.describe)
    | .ok settings => pure (.ok (settings.ignores repository))

end PathFilter.Settings
