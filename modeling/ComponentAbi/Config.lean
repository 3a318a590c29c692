import ComponentAbi.FileSystem
import ComponentAbi.Toml.Reader

/-!
# Configuration

Settings of the command line. Every setting has a default, and unknown ones are rejected.
-/

namespace ComponentAbi

/-- The format of log records. -/
inductive LogFormat where
  | text
  | json
deriving DecidableEq, Repr

namespace LogFormat

/-- The written name. -/
def name : LogFormat → String
  | text => "text"
  | json => "json"

/-- The format of a name. -/
def ofName? : String → Option LogFormat
  | "text" => some text
  | "json" => some json
  | _ => none

end LogFormat

/-- Settings of the log. -/
structure LogConfig where
  /-- Which records are written. -/
  level : String := "warn"
  /-- The format of records. -/
  format : LogFormat := .text
  /-- Where records go: `stdout`, `stderr`, or the path of a file. -/
  output : String := "stderr"
  /-- Records on a terminal are colored. -/
  color : Bool := true
  /-- Records say where they come from. -/
  target : Bool := false
  /-- Records have a time. -/
  timestamps : Bool := true
deriving DecidableEq, Repr, Inhabited

/-- Settings of the command line. -/
structure Config where
  /-- Source directories, one package in each. -/
  sources : List String := []
  /-- Extension of document files. -/
  extension : String := "json"
  /-- The world to work on. -/
  world : Option String := none
  /-- Settings of the log. -/
  logging : LogConfig := {}
deriving DecidableEq, Repr, Inhabited

namespace Toml

/-- The text of a string. -/
def string? : Toml → Option String
  | string text => some text
  | _ => none

/-- The value of a boolean. -/
def boolean? : Toml → Option Bool
  | boolean b => some b
  | _ => none

/-- The texts of an array of strings. -/
def strings? : Toml → Option (List String)
  | array items => items.mapM string?
  | _ => none

/-- The format of log records that a name stands for. The name may also be the key of a table of its
own that holds nothing. -/
def logFormat? : Toml → Option LogFormat
  | string text => LogFormat.ofName? text
  | table [(name, array [])] | table [(name, table [])] => LogFormat.ofName? name
  | _ => none

end Toml

namespace LogConfig

/-- The names of the settings, in their order. -/
def names : List String :=
  ["level", "format", "output", "color", "target", "timestamps"]

/-- Changes the setting of a name. -/
def set (c : LogConfig) (name : String) (v : Toml) : Option LogConfig :=
  match name with
  | "level" => v.string?.map fun level => { c with level }
  | "format" => v.logFormat?.map fun format => { c with format }
  | "output" => v.string?.map fun output => { c with output }
  | "color" => v.boolean?.map fun color => { c with color }
  | "target" => v.boolean?.map fun target => { c with target }
  | "timestamps" => v.boolean?.map fun timestamps => { c with timestamps }
  | _ => none

/-- Reads settings from a table, or from an array of the first of them in their order. -/
def ofToml? : Toml → Option LogConfig
  | .table entries => entries.foldlM (fun c (name, v) => set c name v) {}
  | .array items => (names.zip items).foldlM (fun c (name, v) => set c name v) {}
  | _ => none

end LogConfig

namespace Config

/-- Changes the setting of a name. -/
def set (c : Config) (name : String) (v : Toml) : Option Config :=
  match name with
  | "sources" => v.strings?.map fun sources => { c with sources }
  | "extension" => v.string?.map fun extension => { c with extension }
  | "world" => v.string?.map fun world => { c with world := some world }
  | "logging" => (LogConfig.ofToml? v).map fun logging => { c with logging }
  | _ => none

/-- Reads a configuration from its text. -/
def parse (text : String) : Except ConfigError Config :=
  match (Toml.parse? text).bind (·.foldlM (fun c (name, v) => set c name v) {}) with
  | some c => .ok c
  | none => .error .malformed

/-- Reads a configuration file. -/
def read {m : Type → Type} [Monad m] (fs : FileSystem m) (path : String) :
    m (Except ConfigError Config) := do
  match ← fs.read path with
  | .ok text => return parse text
  | .error cause => return .error (.file path cause)

end Config

end ComponentAbi
