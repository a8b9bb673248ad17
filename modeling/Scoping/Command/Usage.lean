import Scoping.Command.Args

/-!
# Usage

What is said about the command line itself: the help, the version, and what is wrong with a command
line that cannot be read.
-/

namespace Scoping

/-- The version in words. -/
def Usage.version : String := "scoping 0.1.0"

/-- The options in words, one a line. -/
def Usage.options : List String := [
  "  --exclude <GLOB>            Skip paths that match this glob; may be repeated",
  "  --format <FORMAT>           Output format: text or json [default: text]",
  "  --no-color                  Disable coloured output",
  "  --unresolved                List occurrences of names that no enclosing scope declares",
  "  --fail-on-unresolved        Exit with status 2 when there are unresolved names",
  "  --config <FILE>             JSON file with analysis options (maxTokens, maxNestingDepth)",
  "  --max-tokens <N>            Abort a file after this many tokens",
  "  --max-nesting-depth <N>     Reject programs nested deeper than this",
  "  -h, --help                  Print help",
  "  -V, --version               Print version"]

/-- The help. -/
def Usage.help : String :=
  "\n".intercalate (
    ["Print the lexical scopes and variable bindings of JavaScript files",
      "",
      "Usage: scoping [OPTIONS] <PATHS>...",
      "",
      "Files are taken as they are; directories are searched for .js, .mjs and .cjs files.",
      "",
      "Options:"] ++ Usage.options)

/-- The error in words. -/
def UsageError.message : UsageError → String
  | missingPath => "no path is given"
  | unknownArgument => "an argument is not known"
  | invalidValue => "a value is missing, empty or not one of the possible values"
  | unreadableValue => "a value is not a number in range"
  | repeatedArgument => "an argument is used more than once"
  | unwantedValue => "a value is given to an argument that takes none"
  | helpAsked => "help is asked for"
  | versionAsked => "the version is asked for"

end Scoping
