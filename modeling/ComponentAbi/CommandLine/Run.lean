import ComponentAbi.CommandLine.Arguments
import ComponentAbi.CommandLine.Outcome
import ComponentAbi.Json.Plan
import ComponentAbi.Plan.Generate
import ComponentAbi.Report
import ComponentAbi.Sources

/-!
# Running commands

A run reads its configuration, opens its log, loads the source directories and answers with one JSON
document (`CommandLine.run`). What is asked about the loaded project does not depend on files any
more (`Command.answer`).
-/

namespace ComponentAbi

namespace CommandLine

/-! ### Commands -/

/-- A record of a part of the program, or of the program itself. -/
def record (level : LogLevel) (parts : List String) (message : String) (details : List String) :
    LogRecord :=
  { level, target := String.intercalate "::" ("wit_canon" :: parts), message, details }

/-- The record of references being followed. -/
def followed : LogRecord :=
  record .trace ["resolve", "reference"] "followed type reference" ["from", "to"]

/-- The record of references being followed, if what `render` makes of some types needs the packages
that references are looked up in. -/
def followedBy {ε : Type} (abi : Abi) (render : Abi → Except ε Json) : List LogRecord :=
  match render abi, render { abi with store? := none } with
  | .ok document, .ok same => if document.compact = same.compact then [] else [followed]
  | .ok _, .error _ => [followed]
  | .error _, _ => []

namespace Command

/-- What a command says about a project: a document, and what happened on the way. -/
def answer (config : Config) (p : Project) : Command → Except RunError (Json × List LogRecord)
  | report world => do
    let built (r : Report) : Json × List LogRecord :=
      let refused := r.functions.filter fun f => !f.signature.isOk
      let functions := r.functions.map (·.function)
      (r.toJson,
        followedBy p.abi (fun abi => (Report.ofFunctions abi functions).map (·.toJson))
          ++ refused.map (fun _ =>
            record .warn ["report"] "signature cannot be lowered" ["function", "err"])
          ++ [record .debug ["report"] "built report" ["functions", "types"],
            record .info [] "report ready" ["functions"]])
    match world.or config.world with
    | some world =>
      let (document, records) :=
        built (← (Report.ofWorld p world).mapError (.reporting world))
      return (document, expandedWorld :: records)
    | none => return built (← (Report.ofInterfaces p).mapError .other)
  | layout type => do
    let named ← (p.findNamed type).mapError .other
    let id ← (p.findType type).mapError .other
    let report (abi : Abi) := (TypeReport.of abi id).map (·.toJson)
    return (← (report p.abi).mapError (.layingOut type),
      (if named = id then [] else [followed]) ++ followedBy p.abi report)
  | plan world function direction => do
    let some world := world.or config.world | throw .noWorld
    let functions ← (p.worldFunctions world).mapError .other
    let f ← (WorldFunction.choose functions function).mapError .choice
    let plan (abi : Abi) :=
      (abi.plan f.module f.name f.func (direction.getD f.direction)).map (·.toJson)
    return (← (plan p.abi).mapError (.planning function),
      expandedWorld :: followedBy p.abi plan ++ [record .debug ["marshal", "plan"]
        "planned function" ["name", "direction", "temporaries"]])
where
  /-- The record of a world being taken apart. -/
  expandedWorld : LogRecord :=
    record .debug ["project"] "expanded world" ["world", "functions"]

end Command

/-! ### Runs -/

section Run

variable {m : Type → Type} [Monad m]

/-- A part of a run that may fail. -/
abbrev RunM (m : Type → Type) := ExceptT RunError m

/-- Does something whose errors make the run fail. -/
def attempt {ε α : Type} (fail : ε → RunError) (step : m (Except ε α)) : RunM m α :=
  ExceptT.mk do return (← step).mapError fail

/-- The configuration of a file, or the default one. -/
def configOf (fs : FileSystem m) : Option String → RunM m Config
  | some path => attempt (fun e => .other (.config e)) (Config.read fs path)
  | none => return {}

/-- Opens the log. -/
def openLog (fs : FileSystem m) (settings : LogConfig) : RunM m Log := do
  let some filter := LogFilter.parse? settings.level | throw .logFilter
  let output := LogOutput.ofName settings.output
  if let .file path := output then attempt (.logFile path) (fs.append path "")
  return { output, filter, settings }

/-- Loads the source directories. -/
def load (fs : FileSystem m) (config : Config) (a : Arguments) :
    RunM m (Project × List LogRecord) := do
  let directories := if a.directories.isEmpty then config.sources else a.directories
  if directories.isEmpty then throw .noSources
  let extension := a.extension.getD config.extension
  let p ← attempt .loading (Project.ofDirectories fs extension directories)
  let groups := directories.map fun _ =>
    record .debug ["loader"] "read source group" ["directory", "files"]
  let packages := p.store.packages.map fun _ =>
    record .debug ["loader"] "adding package contents" ["package"]
  return (p, groups ++ packages
    ++ [record .info ["loader"] "loaded project" ["packages", "types"]])

/-- Does what the arguments say. -/
def perform (fs : FileSystem m) (a : Arguments) : RunM m Outcome := do
  let config ← configOf fs a.config
  let log ← openLog fs { config.logging with level := a.logLevel.getD config.logging.level }
  let (p, loaded) ← load fs config a
  let (document, records) ← liftM (a.command.answer config p)
  let lines := log.lines (loaded ++ records)
  if let .file path := log.output then
    attempt (.logFile path) (fs.append path (String.join (lines.map (· ++ "\n"))))
  return .printed document lines log.output

/-- A whole run. `environment` is the configuration file that the environment names. -/
def run (fs : FileSystem m) (environment : Option String) (arguments : List String) :
    m Outcome := do
  match Arguments.parse environment arguments with
  | .error .help => return .help
  | .error .usage => return .usage
  | .ok a =>
    match ← (perform fs a).run with
    | .ok outcome => return outcome
    | .error cause => return .failed cause

end Run

end CommandLine

end ComponentAbi
