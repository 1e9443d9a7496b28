import PathFilter.Text.Basic

set_option autoImplicit false
set_option relaxedAutoImplicit false

namespace PathFilter.CommandLine

def versionText : Text := "vcfilter 0.6.1".toList

def helpLines : List String :=
  ["",
    "Usage: vcfilter [OPTIONS] [PATH...]",
    "",
    "Classifies repository-relative paths as included, excluded, ignored,",
    "implied or maybe. Paths are read from standard input, one per line,",
    "when none are given on the command line.",
    "",
    "Patterns:",
    "  -i, --include PATTERN     Add an include pattern.",
    "  -x, --exclude PATTERN     Add an exclude pattern.",
    "      --ignore PATTERN      Add an ignore pattern.",
    "      --include-from FILE   Read include patterns from FILE.",
    "      --exclude-from FILE   Read exclude patterns from FILE.",
    "      --ignore-from FILE    Read ignore patterns from FILE.",
    "      --settings FILE       Read ignore patterns from a settings file.",
    "      --repo NAME           Repository section to use with --settings.",
    "",
    "Matching:",
    "      --anywhere            Let patterns match at any directory depth.",
    "      --recursive           Let patterns match everything below a folder.",
    "      --trailing-slash      Ignore one trailing separator on paths.",
    "      --repo-root           Treat a leading '@' component as the root.",
    "      --no-includes         Disable include patterns.",
    "      --no-excludes         Disable exclude patterns.",
    "      --no-ignores          Disable ignore patterns.",
    "",
    "Output:",
    "      --accepted-only       Print only paths that should be processed.",
    "      --json                Print one JSON object per path.",
    "  -v, --verbose             Increase diagnostic output (repeatable).",
    "  -h, --help                Show this help message and exit.",
    "  -V, --version             Output version information and exit."]

/-- The help text, each line ended. -/
def helpText : Text :=
  (versionText :: helpLines.map String.toList).flatMap fun line => line ++ ['\n']

end PathFilter.CommandLine
