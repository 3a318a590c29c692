import ComponentAbi.Failure
import ComponentAbi.FunctionChoice

/-!
# Why runs fail

A failing run tells what went wrong, and below that what it is due to (`RunError.lines`).
-/

namespace ComponentAbi

namespace CommandLine

/-- Why a run fails. -/
inductive RunError where
  /-- Neither arguments nor configuration name a source directory. -/
  | noSources
  /-- Neither arguments nor configuration name a world. -/
  | noWorld
  /-- The text of the log filter is not a filter. -/
  | logFilter
  /-- The log file cannot be written. -/
  | logFile (path : String) (cause : FileError)
  /-- There is not exactly one function that is wanted. -/
  | choice (cause : ChoiceError)
  | loading (cause : LoadError)
  | reporting (world : String) (cause : Failure)
  | layingOut (type : String) (cause : AbiError)
  | planning (function : String) (cause : AbiError)
  /-- Any other failure. -/
  | other (cause : Failure)
deriving DecidableEq, Repr

namespace RunError

/-- The wording of the error. -/
def message : RunError → String
  | noSources => "No source directories given on the command line or in the configuration"
  | noWorld => "--world is required when no world is configured"
  | logFilter => "Invalid log filter:"
  | logFile path cause => "Failed to open log file '" ++ path ++ "': " ++ cause.message
  | choice cause => cause.message
  | loading _ => "Failed to load sources"
  | reporting world _ => "Failed to report world '" ++ world ++ "'"
  | layingOut type _ => "Failed to lay out '" ++ type ++ "'"
  | planning function _ => "Failed to plan '" ++ function ++ "'"
  | other cause => cause.message

/-- What the error is due to, from the outside in. -/
def causes : RunError → List String
  | noSources | noWorld | logFilter | logFile .. | choice _ => []
  | loading cause => (Failure.load cause).message :: (Failure.load cause).causes
  | reporting _ cause => cause.message :: cause.causes
  | layingOut _ cause | planning _ cause => [cause.message]
  | other cause => cause.causes

/-- Text whose lines but the first are indented. -/
def hanging (indent : Nat) (text : String) : String :=
  String.intercalate ("\n" ++ String.ofList (List.replicate indent ' ')) (Text.pieces '\n' text)

/-- A list of causes: a single one is indented, and several ones are numbered. -/
def listed : List String → List String
  | [cause] => ["    " ++ hanging 4 cause]
  | causes => causes.zipIdx.map fun (cause, i) =>
      let number := toString i
      String.ofList (List.replicate (5 - number.length) ' ') ++ number ++ ": " ++ hanging 7 cause

/-- The lines of a text, whose ends may be written with a carriage return. -/
def linesOf (text : String) : List String :=
  (Text.pieces '\n' text).map fun line =>
    if line.endsWith "\r" then String.ofList line.toList.dropLast else line

/-- The lines that tell the user about the error. -/
def lines (e : RunError) : List String :=
  let causes := if e.causes.isEmpty then [] else ["", "Caused by:"] ++ listed e.causes
  (("Error: " ++ e.message) :: causes).flatMap linesOf

end RunError

end CommandLine

end ComponentAbi
