/-!
# Tables of configuration text

Configuration text (TOML) is a sequence of headers and of keys with values, which together build one
table. A table is written in one place only: under its header, by dotted keys, or inline.
-/

namespace ComponentAbi

/-- A value of configuration text. -/
inductive Toml where
  | string (text : String)
  | boolean (b : Bool)
  | array (items : List Toml)
  | table (entries : List (String × Toml))
  /-- A number or a date. No setting has such a value, so it is not kept which. -/
  | other
deriving Repr, Inhabited

namespace Toml

/-- How a table came to be. -/
inductive Origin where
  /-- By its own header. -/
  | header
  /-- By the header of a table inside it. -/
  | outer
  /-- By dotted keys. -/
  | dotted
deriving DecidableEq, Repr

/-- A part of the table that is being built. -/
inductive Node where
  /-- A complete value. -/
  | value (v : Toml)
  /-- A table that may still grow. -/
  | table (origin : Origin) (entries : List (String × Node))
  /-- Tables under the same header, the last of which may still grow. -/
  | tables (elements : List (List (String × Node)))
deriving Repr, Inhabited

/-- The entries of a table that is being built. -/
abbrev Entries := List (String × Node)

namespace Node

mutual

/-- The finished value. -/
def finish : Node → Toml
  | value v => v
  | table _ entries => .table (finishEntries entries)
  | tables elements => .array (finishElements elements)
termination_by structural n => n

/-- The finished entries of a table. -/
def finishEntries : List (String × Node) → List (String × Toml)
  | [] => []
  | (key, n) :: rest => (key, n.finish) :: finishEntries rest
termination_by structural entries => entries

/-- The finished tables of an array. -/
def finishElements : List (List (String × Node)) → List Toml
  | [] => []
  | entries :: rest => .table (finishEntries entries) :: finishElements rest
termination_by structural elements => elements

end

end Node

/-- Puts a node in place of the entry of a key, or adds it at the end. -/
def setEntry (key : String) (node : Node) : Entries → Entries
  | [] => [(key, node)]
  | (known, old) :: rest =>
    if known = key then (key, node) :: rest else (known, old) :: setEntry key node rest

/-- Changes the table that a path leads to with `change`, which is told how that table came to be.
Tables that are missing on the way come to be by `missing`; dotted keys do not lead through tables
that have a header of their own. -/
def descend (missing : Origin) (change : Origin → Entries → Option Entries) :
    List String → Origin → Entries → Option Entries
  | [], origin, entries => change origin entries
  | key :: path, _, entries => do
    let node ← match entries.lookup key with
      | none => (descend missing change path missing []).map (Node.table missing)
      | some (.table origin inner) =>
        if missing = .dotted ∧ origin = .header then none
        else (descend missing change path origin inner).map (Node.table origin)
      | some (.tables elements) => do
        let last ← elements.getLast?
        let last ← descend missing change path .header last
        some (.tables (elements.dropLast ++ [last]))
      | some (.value _) => none
    return setEntry key node entries

/-- Adds a key with a value to a table. A key with several parts adds to a table inside it, which
must be one that comes from dotted keys. -/
def addValue (key : List String) (v : Toml) (entries : Entries) : Option Entries := do
  let last ← key.getLast?
  let path := key.dropLast
  let insert (origin : Origin) (entries : Entries) : Option Entries :=
    if (path.isEmpty || origin = .dotted) && (entries.lookup last).isNone then
      some (entries ++ [(last, .value v)])
    else none
  descend .dotted insert path .header entries

/-- Opens the table of a header. Only a table that came to be by the headers of tables inside it may
be there already. -/
def openTable (key : List String) (entries : Entries) : Option Entries := do
  let last ← key.getLast?
  let openHere (_ : Origin) (entries : Entries) : Option Entries :=
    match entries.lookup last with
    | none => some (entries ++ [(last, .table .header [])])
    | some (.table .outer inner) => some (setEntry last (.table .header inner) entries)
    | some _ => none
  descend .outer openHere key.dropLast .header entries

/-- Opens one more table under a repeated header. -/
def appendTable (key : List String) (entries : Entries) : Option Entries := do
  let last ← key.getLast?
  let append (_ : Origin) (entries : Entries) : Option Entries :=
    match entries.lookup last with
    | none => some (entries ++ [(last, .tables [[]])])
    | some (.tables elements) => some (setEntry last (.tables (elements ++ [[]])) entries)
    | some _ => none
  descend .outer append key.dropLast .header entries

/-- Adds a key with a value to the table that the last header opened. -/
def addUnder (header key : List String) (v : Toml) (entries : Entries) : Option Entries :=
  descend .outer (fun _ inner => addValue key v inner) header .header entries

end Toml

end ComponentAbi
