import PathFilter.CommandLine.Argument
import PathFilter.CommandLine.Error
import PathFilter.CommandLine.Help
import PathFilter.CommandLine.Invocation
import PathFilter.CommandLine.Options
import PathFilter.CommandLine.Parser
import PathFilter.CommandLine.Printer
import PathFilter.Event
import PathFilter.Files.Basic
import PathFilter.Files.Tree
import PathFilter.Filter.Basic
import PathFilter.Filter.Decision
import PathFilter.Filter.Error
import PathFilter.Filter.History
import PathFilter.Filter.Load
import PathFilter.Glob.Alignment
import PathFilter.Glob.Basic
import PathFilter.Glob.Options
import PathFilter.Glob.Wildcard
import PathFilter.Json.Reader
import PathFilter.Json.Writer
import PathFilter.Main
import PathFilter.PatternFile.Basic
import PathFilter.PatternFile.Lines
import PathFilter.Proofs.CommandLine.Attainable
import PathFilter.Proofs.CommandLine.Items
import PathFilter.Proofs.CommandLine.Reading
import PathFilter.Proofs.CommandLine.RoundTrip
import PathFilter.Proofs.CommandLine.Steps
import PathFilter.Proofs.Files.Texts
import PathFilter.Proofs.Filter.Additions
import PathFilter.Proofs.Filter.CutTexts
import PathFilter.Proofs.Filter.Decision
import PathFilter.Proofs.Filter.Histories
import PathFilter.Proofs.Filter.Loads
import PathFilter.Proofs.Filter.MoreOptions
import PathFilter.Proofs.Filter.PatternSets
import PathFilter.Proofs.Filter.Questions
import PathFilter.Proofs.Filter.RootPaths
import PathFilter.Proofs.Filter.Rules
import PathFilter.Proofs.Filter.Sameness
import PathFilter.Proofs.Filter.Switches
import PathFilter.Proofs.Glob.Alignment
import PathFilter.Proofs.Glob.Boundaries
import PathFilter.Proofs.Glob.CheckedRows
import PathFilter.Proofs.Glob.Equality
import PathFilter.Proofs.Glob.Fits
import PathFilter.Proofs.Glob.Greedy
import PathFilter.Proofs.Glob.Matching
import PathFilter.Proofs.Glob.MixedSeparators
import PathFilter.Proofs.Glob.OpenEnds
import PathFilter.Proofs.Glob.Root
import PathFilter.Proofs.Glob.Scan
import PathFilter.Proofs.Glob.ScanStates
import PathFilter.Proofs.Glob.Separators
import PathFilter.Proofs.Glob.TrailingSeparators
import PathFilter.Proofs.Glob.Widening
import PathFilter.Proofs.Json.RoundTrip
import PathFilter.Proofs.PatternFile.LineEnds
import PathFilter.Proofs.PatternFile.RoundTrip
import PathFilter.Proofs.Session.AcceptedOnly
import PathFilter.Proofs.Session.Diagnostics
import PathFilter.Proofs.Session.Inputs
import PathFilter.Proofs.Session.JsonRecords
import PathFilter.Proofs.Session.Loading
import PathFilter.Proofs.Session.PathLists
import PathFilter.Proofs.Session.PrintedRecords
import PathFilter.Proofs.Session.Reports
import PathFilter.Proofs.Session.Runs
import PathFilter.Proofs.Session.Scripts
import PathFilter.Proofs.Session.Tallies
import PathFilter.Proofs.Session.Writing
import PathFilter.Proofs.Settings.Grammar
import PathFilter.Proofs.Settings.Layout
import PathFilter.Proofs.Settings.Lookup
import PathFilter.Proofs.Settings.Meaning
import PathFilter.Proofs.Settings.Reading
import PathFilter.Proofs.Settings.RoundTrip
import PathFilter.Proofs.Settings.Wording
import PathFilter.Proofs.Text.Lines
import PathFilter.Proofs.Text.Trim
import PathFilter.Proofs.Text.Utf8
import PathFilter.Role
import PathFilter.Rule
import PathFilter.Session.Basic
import PathFilter.Session.Build
import PathFilter.Session.Error
import PathFilter.Session.PathList
import PathFilter.Session.Record
import PathFilter.Session.Sink
import PathFilter.Settings.Basic
import PathFilter.Settings.Error
import PathFilter.Settings.Layout
import PathFilter.Settings.Parser
import PathFilter.Settings.Printer
import PathFilter.Settings.Source
import PathFilter.Text.Basic
import PathFilter.Text.Blank
import PathFilter.Text.FlagList
import PathFilter.Text.Lines
import PathFilter.Text.Terminal
import PathFilter.Text.Utf8
import PathFilter.Verdict
