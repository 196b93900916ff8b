-- The help texts, line by line.
import LogSweep.CommandLine

namespace LogSweep.HelpTopic

/-! ## Options -/

def rootLines : List String :=
  [ "Arguments:",
    "  [PATHS]...  Files or directories to process. Defaults to the current directory",
    "",
    "Options:" ]

def discoveryLines : List String :=
  [ "      --exclude-folders <EXCLUDE_FOLDERS>",
    "          Folders to exclude",
    "      --include-folders <INCLUDE_FOLDERS>",
    "          Folders to force-include (overrides default exclusions)",
    "      --ext <EXT>",
    "          File extensions to process, without the dot (repeatable)" ]

def targetLines : List String :=
  [ "  -N, --namespace <NAMESPACE>",
    "          Namespace whose methods are matched (repeatable). Defaults to `console` and `window.console`",
    "  -m, --method <METHOD>",
    "          Method matched on every namespace (repeatable). Defaults to `log`, `info` and `assert`",
    "  -t, --target <TARGET>",
    "          Explicit dotted target such as `logger.debug` (repeatable). Overrides --namespace and --method" ]

def stripLines : List String :=
  [ "  -s, --strategy <STRATEGY>",
    "          Replacement strategy: `comment`, `null`, or any text containing `\x7bcall\x7d`. Defaults to `comment` with --remove-semicolon and `null` otherwise",
    "      --remove-semicolon",
    "          Swallow the semicolon that directly follows a removed call",
    "      --dry-run",
    "          Show what would change without writing any file",
    "      --check",
    "          Like --dry-run, but exit with code 1 if any file would change",
    "      --stdout",
    "          Print the rewritten source of a single file instead of writing it",
    "  -o, --out-dir <DIR>",
    "          Write results under this directory instead of in place" ]

def outputLines : List String :=
  [ "      --json",
    "          Output raw JSON",
    "  -v, --verbose",
    "          Enable verbose output for debugging (shows configuration and unchanged files)",
    "  -q, --quiet",
    "          Quiet mode: only report changes and errors, no summary table" ]

def helpLines : List String :=
  [ "  -h, --help",
    "          Print help" ]

def versionLines : List String :=
  [ "  -V, --version",
    "          Print version" ]

/-- What a settings file can say. -/
def settingsLines : List String :=
  [ "",
    "CONFIGURATION FILE (.delog.toml):",
    "  Create this file in your project root to set defaults.",
    "",
    "  [delog]",
    "  namespaces = [\"console\", \"window.console\"]",
    "  methods = [\"log\", \"info\", \"assert\"]",
    "  # targets = [\"logger.debug\"]   # Replaces namespaces x methods when set",
    "  strategy = \"null\"            # comment | null | any text containing \x7bcall\x7d",
    "  remove_semicolon = false     # Swallow the `;` after a removed call",
    "",
    "  # Path filters",
    "  exclude_folders = [\"dist\", \"vendor\"]",
    "  include_folders = [\"coverage\"]  # Force-include these",
    "  extensions = [\"js\", \"mjs\", \"cjs\", \"jsx\"]",
    "",
    "  The same keys are read from a \"delog\" object in package.json." ]

/-! ## Commands -/

def sweepLines : List String :=
  [ "delog - Strip or neutralize console logging calls from JavaScript sources",
    "",
    "Usage: delog [OPTIONS] [PATHS]... [COMMAND]",
    "",
    "Commands:",
    "  scan  List matching logging calls without modifying any file",
    "  help  Print this message or the help of the given subcommand(s)",
    "" ] ++
    rootLines ++ discoveryLines ++ targetLines ++ stripLines ++ outputLines ++ helpLines ++
    versionLines ++ settingsLines

def scanLines : List String :=
  [ "List matching logging calls without modifying any file",
    "",
    "Usage: delog scan [OPTIONS] [PATHS]...",
    "" ] ++
    rootLines ++ discoveryLines ++ targetLines ++ outputLines ++ helpLines

/-- The help on the help itself. -/
def metaLines : List String :=
  [ "Print this message or the help of the given subcommand(s)",
    "",
    "Usage: delog help [COMMAND]...",
    "",
    "Arguments:",
    "  [COMMAND]...  Print help for the subcommand(s)" ]

/-- What is printed when help is asked for. -/
def text : HelpTopic → String
  | .sweep => Text.unlines sweepLines
  | .scan => Text.unlines scanLines
  | .help => Text.unlines metaLines

end LogSweep.HelpTopic
