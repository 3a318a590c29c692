import ComponentAbi.CommandLine.RunError
import ComponentAbi.Config
import ComponentAbi.Json.Basic
import ComponentAbi.Log.Filter

/-!
# How runs end

A run ends with exit code 0 after printing a document or giving help, with 1 after a failure, and
with 2 if its arguments cannot be used. The log may share standard output with the document.
-/

namespace ComponentAbi

namespace CommandLine

/-! ### Log -/

/-- Where log records go. -/
inductive LogOutput where
  | stdout
  | stderr
  | file (path : String)
deriving DecidableEq, Repr

namespace LogOutput

/-- The place of a name. -/
def ofName : String → LogOutput
  | "stdout" => stdout
  | "stderr" => stderr
  | path => file path

end LogOutput

/-- An open log. -/
structure Log where
  /-- Where records go. -/
  output : LogOutput
  /-- Which records are written. -/
  filter : LogFilter
  /-- How records are written. -/
  settings : LogConfig
deriving Repr

namespace Log

/-- The line of a record. -/
def line (settings : LogConfig) (r : LogRecord) : String :=
  match settings.format with
  | .text => r.level.name ++ " " ++ (if settings.target then r.target ++ ": " else "") ++ r.message
  | .json =>
    (Json.object ([("level", .string r.level.name), ("message", .string r.message)]
      ++ if settings.target then [("target", .string r.target)] else [])).compact

/-- The lines of those records that are written. -/
def lines (log : Log) (records : List LogRecord) : List String :=
  (records.filter log.filter.enables).map (line log.settings)

end Log

/-! ### Outcomes -/

/-- How a run ends. -/
inductive Outcome where
  | help
  /-- The arguments cannot be used. -/
  | usage
  | failed (cause : RunError)
  /-- A document is printed. The lines of the log go where `output` says. -/
  | printed (document : Json) (log : List String) (output : LogOutput)
deriving Repr

namespace Outcome

/-- The exit code. -/
def exitCode : Outcome → Nat
  | help | printed .. => 0
  | failed _ => 1
  | usage => 2

/-- The document, if nothing else is printed on standard output. -/
def document? : Outcome → Option Json
  | printed document log output =>
    if output = .stdout && !log.isEmpty then none else some document
  | help | usage | failed _ => none

/-- The lines that tell the user about a failure. -/
def errorLines : Outcome → List String
  | failed cause => cause.lines
  | help | usage | printed .. => []

/-- How the program is used. -/
def usageLines : List String := [
  "Usage: [OPTIONS] <COMMAND> [COMMAND OPTIONS] [DIRECTORIES]",
  "",
  "Commands:",
  "  report  Print the signatures of the functions of a world, or of all interfaces",
  "  layout  Print size, alignment and core words of a type",
  "  plan    Print the instructions that pass one function of a world",
  "  help    Print this help",
  "",
  "Options:",
  "  -c, --config <PATH>          Configuration file",
  "      --log-level <FILTER>     Log filter in place of the configured one",
  "  -h, --help                   Print this help",
  "",
  "Command options:",
  "      --extension <EXTENSION>  Extension of document files",
  "  -w, --world <WORLD>          World to work on (report, plan)",
  "  -t, --type <TYPE>            Type to lay out (layout)",
  "  -f, --function <NAME>        Function to plan (plan)",
  "  -d, --direction <DIRECTION>  Side to plan for: import or export (plan)"]

/-- The lines on standard output. -/
def stdoutLines : Outcome → List String
  | help => usageLines
  | printed document log output => (if output = .stdout then log else []) ++ [document.pretty]
  | usage | failed _ => []

/-- The lines on standard error. -/
def stderrLines : Outcome → List String
  | usage => usageLines
  | failed cause => cause.lines
  | printed _ log output => if output = .stderr then log else []
  | help => []

end Outcome

end CommandLine

end ComponentAbi
