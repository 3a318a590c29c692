import ComponentAbi.LoadError

/-!
# File systems

What the library asks of a file system (`FileSystem`), and file systems that are plain values
(`FileTree`). Outside its tree such a file system has nothing but the null device.
-/

namespace ComponentAbi

/-- An entry of a directory. -/
structure DirectoryEntry where
  /-- The name of the entry. -/
  name : String
  /-- It is a file and not a directory. -/
  isFile : Bool
deriving DecidableEq, Repr

/-- Access to files, with effects in `m`. -/
structure FileSystem (m : Type → Type) where
  /-- The text of a file. -/
  read : String → m (Except FileError String)
  /-- The entries of a directory, in any order. -/
  list : String → m (Except FileError (List DirectoryEntry))
  /-- Appends text to a file, and creates it if there is none. -/
  append : String → String → m (Except FileError Unit)

namespace FileSystem

/-- The path of an entry of a directory. -/
def join (directory name : String) : String :=
  if directory.isEmpty || directory.endsWith "/" then directory ++ name
  else directory ++ "/" ++ name

/-- The extension of a file name: what follows its last dot, unless the name starts with that
dot. -/
def extension? (name : String) : Option String :=
  match Text.cutLast '.' name with
  | some (stem, extension) => if stem.isEmpty then none else some extension
  | none => none

end FileSystem

/-- Files and empty directories with their paths. The directories that contain them are implied. -/
structure FileTree where
  /-- Paths as their parts. An entry without text is a directory. -/
  entries : List (List String × Option String) := []
deriving Repr, Inhabited

namespace FileTree

/-- What a path leads to: a file with its text, a directory, or nothing. -/
inductive Found where
  | file (text : String)
  | directory
  | nothing
deriving DecidableEq, Repr

/-- The part that paths which start with a slash begin with. -/
def root : String := "/"

/-- The place around the tree, a directory in which nothing is found. -/
def outside : List String := [".."]

/-- The file outside the tree that is always empty, whatever is written to it. -/
def nullDevice : List String := [root, "dev", "null"]

/-- What is found at a path that is given by its parts. -/
def at? (t : FileTree) (path : List String) : Found :=
  if path = nullDevice then .file ""
  else if path = outside then .directory
  else match t.entries.lookup path with
    | some (some text) => .file text
    | some none => .directory
    | none =>
      if path.isPrefixOf nullDevice || t.entries.any (fun entry => path.isPrefixOf entry.1) then
        .directory
      else .nothing

/-- The greatest length of a part of a path, in bytes. -/
def maxPartLength : Nat := 255

/-- The greatest length of a path, in bytes. -/
def maxPathLength : Nat := 4095

/-- The place around a directory. There is nothing around the root. -/
def parent (place : List String) : List String :=
  if place = [root] then place
  else if place.isEmpty || place = outside then outside
  else place.dropLast

/-- Follows the parts of a path from the directory `place`. -/
def walk (t : FileTree) (place : List String) : List String → Except FileError (List String)
  | [] => .ok place
  | part :: rest =>
    match t.at? place with
    | .nothing => .error .notFound
    | .file _ => .error .notDirectory
    | .directory =>
      if part = "" || part = "." then walk t place rest
      else if part = ".." then walk t (parent place) rest
      else if maxPartLength < part.utf8ByteSize then .error .nameTooLong
      else walk t (place ++ [part]) rest

/-- Follows a path. The empty path leads nowhere. -/
def follow (t : FileTree) (path : String) : Except FileError (List String) :=
  if path.contains (Char.ofNat 0) then .error .zeroInPath
  else if path.isEmpty then .error .notFound
  else if maxPathLength < path.utf8ByteSize then .error .nameTooLong
  else t.walk (if path.startsWith root then [root] else []) (Text.pieces '/' path)

/-- The tree with one more entry. -/
def insert (t : FileTree) (path : String) (text : Option String) : FileTree :=
  ⟨t.entries ++ [((Text.pieces '/' path).filter fun part => part ≠ "" && part ≠ ".", text)]⟩

/-- The tree with a file in place of what was there. -/
def put (t : FileTree) (place : List String) (text : String) : FileTree :=
  ⟨(place, some text) :: t.entries.filter fun entry => entry.1 != place⟩

/-- The names right below a directory. -/
def namesIn (t : FileTree) (place : List String) : List String :=
  (t.entries.filterMap fun entry =>
    if place.isPrefixOf entry.1 then (entry.1.drop place.length).head? else none).eraseDups

/-- The place where a file is to be written, and what is there. A path with a slash at its end is
that of a directory, even if there is nothing yet. -/
def target (t : FileTree) (path : String) : Except FileError (List String × Found) :=
  if path.endsWith root then do
    let stem := (path.toList.reverse.dropWhile (· = '/')).reverse
    let place ← t.follow (if stem.isEmpty then root else String.ofList stem)
    return (place, .directory)
  else do
    let place ← t.follow path
    return (place, t.at? place)

/-- Access to a tree. -/
def access : FileSystem (StateM FileTree) where
  read path := do
    let t ← get
    return do
      match t.at? (← t.follow path) with
      | .file text => return text
      | .directory => throw .isDirectory
      | .nothing => throw .notFound
  list path := do
    let t ← get
    return do
      let place ← t.follow path
      match t.at? place with
      | .file _ => throw .notDirectory
      | .nothing => throw .notFound
      | .directory =>
        return (t.namesIn place).map fun name =>
          { name, isFile := match t.at? (place ++ [name]) with
              | .file _ => true
              | _ => false }
  append path text := do
    let t ← get
    match t.target path with
    | .error cause => return .error cause
    | .ok (_, .directory) => return .error .isDirectory
    | .ok (place, .file old) =>
      set (t.put place (old ++ text))
      return .ok ()
    | .ok (place, .nothing) =>
      set (t.put place text)
      return .ok ()

end FileTree

end ComponentAbi
