/-!
# What the command line says about itself

The texts that the options for help and for the version print, each with a line end after
it. There is a summary and a long form of the help.
-/

namespace WorkspaceFacts

namespace CommandLine

/-- Lines as a text, each with its line end. -/
def ofLines (lines : List String) : String := String.join (lines.map (· ++ "\n"))

/-- The name and the version of the program. -/
def versionText : String := ofLines ["cargo-query 0.1.0"]

/-- The help in short form: every option on one line. -/
def shortHelp : String := ofLines [
  "Print workspace manifest metadata for the Meson build",
  "",
  "Usage: cargo-query [OPTIONS]",
  "",
  "Options:",
  "  -w, --workspace <DIR>  Workspace root (overrides PATH_WS)",
  "  -f, --format <FORMAT>  Output format: lines, json [default: lines] [possible values: lines, json]",
  "  -q, --quiet            Quiet mode (errors only in logs)",
  "  -v, --verbose          Verbose mode (debug logging)",
  "  -h, --help             Print help (see more with '--help')",
  "  -V, --version          Print version"]

/-- The help in long form. -/
def longHelp : String := ofLines [
  "Top-level CLI parser for the `cargo-query` binary.",
  "",
  "Run without arguments it behaves exactly as the build expects: manifests are found through `PATH_WS` (or the current directory) and four lines are printed.",
  "",
  "Usage: cargo-query [OPTIONS]",
  "",
  "Options:",
  "  -w, --workspace <DIR>",
  "          Workspace root (overrides PATH_WS)",
  "",
  "  -f, --format <FORMAT>",
  "          Output format: lines, json",
  "",
  "          Possible values:",
  "          - lines: One value per line, lints comma-joined (what Meson reads)",
  "          - json:  Pretty-printed JSON object",
  "          ",
  "          [default: lines]",
  "",
  "  -q, --quiet",
  "          Quiet mode (errors only in logs)",
  "",
  "  -v, --verbose",
  "          Verbose mode (debug logging)",
  "",
  "  -h, --help",
  "          Print help (see a summary with '-h')",
  "",
  "  -V, --version",
  "          Print version"]

end CommandLine

end WorkspaceFacts
