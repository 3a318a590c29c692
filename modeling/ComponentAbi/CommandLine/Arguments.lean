import ComponentAbi.Direction

/-!
# Arguments of the command line

The arguments are options, one of the commands `report`, `layout` and `plan`, and options and source
directories of that command. Options of the program may also stand after the command, and then count
more. Arguments are read from left to right: a wish for help is granted as soon as it is read, and
the first argument that cannot be used ends the reading.
-/

namespace ComponentAbi

namespace CommandLine

/-- The options that have a value. -/
inductive OptionName where
  | config
  | logLevel
  | extension
  | world
  | type
  | function
  | direction
deriving DecidableEq, Repr

namespace OptionName

/-- The name after two dashes. -/
def long : OptionName → String
  | config => "config"
  | logLevel => "log-level"
  | extension => "extension"
  | world => "world"
  | type => "type"
  | function => "function"
  | direction => "direction"

/-- The letter after one dash. -/
def short? : OptionName → Option Char
  | config => some 'c'
  | world => some 'w'
  | type => some 't'
  | function => some 'f'
  | direction => some 'd'
  | logLevel | extension => none

/-- The option may have the value: a path is not empty, and a direction has one of two names. -/
def accepts : OptionName → String → Bool
  | config, v => !v.isEmpty
  | direction, v => (Direction.ofName? v).isSome
  | _, _ => true

end OptionName

/-- The commands. -/
inductive CommandName where
  | report
  | layout
  | plan
deriving DecidableEq, Repr

namespace CommandName

/-- The written name. -/
def name : CommandName → String
  | report => "report"
  | layout => "layout"
  | plan => "plan"

/-- The command of a name. -/
def ofName? : String → Option CommandName
  | "report" => some report
  | "layout" => some layout
  | "plan" => some plan
  | _ => none

/-- The options of a command. -/
def options : CommandName → List OptionName
  | report => [.extension, .world]
  | layout => [.extension, .type]
  | plan => [.extension, .world, .function, .direction]

end CommandName

/-- The options of the program. -/
def programOptions : List OptionName :=
  [.config, .logLevel]

/-- What is to be done. -/
inductive Command where
  /-- The report on a world, or on all interfaces. -/
  | report (world : Option String)
  /-- The layout of a type. -/
  | layout (type : String)
  /-- The plan of a function of a world, for a direction or the one the world uses it in. -/
  | plan (world : Option String) (function : String) (direction : Option Direction)
deriving DecidableEq, Repr

/-- All that the arguments say. -/
structure Arguments where
  /-- The configuration file. -/
  config : Option String
  /-- The log filter. -/
  logLevel : Option String
  /-- Source directories. -/
  directories : List String
  /-- Extension of document files. -/
  extension : Option String
  /-- What is to be done. -/
  command : Command
deriving DecidableEq, Repr

/-- Why there is nothing to be done. -/
inductive Refusal where
  /-- Help is wanted. -/
  | help
  /-- The arguments cannot be used. -/
  | usage
deriving DecidableEq, Repr

/-- What some arguments give. -/
structure Given where
  /-- Options with their values, each at most once. -/
  values : List (OptionName × String) := []
  /-- Source directories. -/
  directories : List String := []
deriving DecidableEq, Repr

namespace Given

/-- The value of an option. -/
def value? (g : Given) (o : OptionName) : Option String :=
  g.values.lookup o

/-- Gives a value to an option. -/
def give (g : Given) (o : OptionName) (v : String) : Except Refusal Given :=
  if (g.value? o).isSome || !o.accepts v then .error .usage
  else .ok { g with values := g.values ++ [(o, v)] }

/-- Adds source directories, whose paths must not be empty. -/
def addDirectories (g : Given) (paths : List String) : Except Refusal Given :=
  if paths.contains "" then .error .usage
  else .ok { g with directories := g.directories ++ paths }

end Given

/-- What a single argument is. -/
inductive Argument where
  /-- An option, perhaps with its value. -/
  | option (o : OptionName) (value : Option String)
  | help
  /-- Only words follow. -/
  | separator
  | word (text : String)
  /-- An option that is not known. -/
  | unknown
deriving DecidableEq, Repr

namespace Argument

/-- An argument after two dashes. -/
def ofLong (known : List OptionName) (text : List Char) : Argument :=
  let name := String.ofList (text.takeWhile (· ≠ '='))
  let value := match text.dropWhile (· ≠ '=') with
    | '=' :: rest => some (String.ofList rest)
    | _ => none
  match known.find? (·.long == name) with
  | some o => option o value
  | none => if name == "help" && value.isNone then help else unknown

/-- An argument after one dash: a letter, perhaps with a value right after it. -/
def ofShort (known : List OptionName) (letter : Char) (rest : List Char) : Argument :=
  match known.find? (·.short? == some letter) with
  | some o =>
    option o <| match rest with
      | [] => none
      | '=' :: value | value => some (String.ofList value)
  | none => if letter = 'h' then help else unknown

/-- What an argument is where some options are known. -/
def ofText (known : List OptionName) (text : String) : Argument :=
  match text.toList with
  | ['-', '-'] => separator
  | '-' :: '-' :: rest => ofLong known rest
  | '-' :: letter :: rest => ofShort known letter rest
  | _ => word text

end Argument

/-- What reading some arguments comes to. -/
structure Reading where
  given : Given
  /-- An option with its value right before the word that ended the reading. It has not been given
  yet. -/
  pending : Option (OptionName × String) := none
  /-- The arguments that are left. -/
  rest : List String := []
deriving DecidableEq, Repr

/-- What the arguments give, the pending option included. -/
def Reading.complete (r : Reading) : Except Refusal Given :=
  match r.pending with
  | some (o, v) => r.given.give o v
  | none => .ok r.given

/-- A word comes first. -/
def startsWithWord (known : List OptionName) : List String → Bool
  | text :: _ =>
    match Argument.ofText known text with
    | .word _ => true
    | _ => false
  | [] => false

/-- Reads arguments. Words are source directories, or else the first of them ends the reading and
stands at the start of what is left. A value that is an argument of its own does not start with a
dash; right before the word that ends the reading it stays pending. -/
def read (known : List OptionName) (wordsAreDirectories : Bool) (g : Given) :
    List String → Except Refusal Reading
  | [] => .ok { given := g }
  | text :: rest =>
    match Argument.ofText known text with
    | .unknown => .error .usage
    | .help => .error .help
    | .separator =>
      if wordsAreDirectories then do return { given := ← g.addDirectories rest }
      else .error .usage
    | .word path =>
      if wordsAreDirectories then do
        read known wordsAreDirectories (← g.addDirectories [path]) rest
      else .ok { given := g, rest := text :: rest }
    | .option o (some v) => do read known wordsAreDirectories (← g.give o v) rest
    | .option o none =>
      match rest with
      | [] => .error .usage
      | v :: rest =>
        match Argument.ofText known v with
        | .word v =>
          if !wordsAreDirectories && startsWithWord known rest then
            .ok { given := g, pending := some (o, v), rest }
          else do read known wordsAreDirectories (← g.give o v) rest
        | _ => .error .usage

/-- The command that its options describe. -/
def commandOf (g : Given) : CommandName → Except Refusal Command
  | .report => .ok (.report (g.value? .world))
  | .layout =>
    match g.value? .type with
    | some type => .ok (.layout type)
    | none => .error .usage
  | .plan =>
    match g.value? .function with
    | some function =>
      .ok (.plan (g.value? .world) function ((g.value? .direction).bind Direction.ofName?))
    | none => .error .usage

/-- The configuration file: that of the command, that of the program, or that of the environment. An
empty path in the environment is an error unless both others are given. -/
def configPath (environment : Option String) (program command : Option String) :
    Except Refusal (Option String) :=
  if environment = some "" && (program.isNone || command.isNone) then .error .usage
  else .ok (command.or (program.or environment))

/-- Reads all arguments. `environment` is the configuration file that the environment names. An
option that is pending before the command is given only after the command's own arguments were read,
so a wish for help among those comes before an error in it. -/
def Arguments.parse (environment : Option String) (arguments : List String) :
    Except Refusal Arguments := do
  let program ← read programOptions false {} arguments
  match program.rest with
  | "help" :: topics =>
    match topics with
    | [] => throw .help
    | [topic] =>
      throw (if topic = "help" || (CommandName.ofName? topic).isSome then .help else .usage)
    | _ => throw .usage
  | name :: rest =>
    let some name := CommandName.ofName? name | throw .usage
    let { given := g, .. } ← read (programOptions ++ name.options) true {} rest
    let command ← commandOf g name
    let program ← program.complete
    let config ← configPath environment (program.value? .config) (g.value? .config)
    return {
      config
      logLevel := (g.value? .logLevel).or (program.value? .logLevel)
      directories := g.directories
      extension := g.value? .extension
      command }
  | [] => throw .usage

end CommandLine

end ComponentAbi
