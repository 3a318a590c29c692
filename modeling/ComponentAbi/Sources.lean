import ComponentAbi.Document.Reader
import ComponentAbi.FileSystem
import ComponentAbi.Loader

/-!
# Source directories

Each source directory is a group of documents: its files with a given extension, in the order of
their names. Directories inside it are not looked into.
-/

namespace ComponentAbi

namespace SourceGroup

variable {m : Type → Type} [Monad m]

/-- Reads documents in order. -/
def readFiles (fs : FileSystem m) (directory : String) :
    List String → m (Except LoadError (List SourceFile))
  | [] => return .ok []
  | name :: rest => do
    let path := FileSystem.join directory name
    match ← fs.read path with
    | .error cause => return .error (.file path cause)
    | .ok text =>
      match Document.parse? text with
      | none => return .error (.document path)
      | some document =>
        return (← readFiles fs directory rest).map fun files => { path, document } :: files

/-- Reads the documents of a directory. -/
def read (fs : FileSystem m) (extension directory : String) :
    m (Except LoadError SourceGroup) := do
  match ← fs.list directory with
  | .error cause => return .error (.file directory cause)
  | .ok entries =>
    let wanted := entries.filter fun e =>
      e.isFile && FileSystem.extension? e.name == some extension
    let names := (wanted.map (·.name)).mergeSort fun a b => decide (a ≤ b)
    return (← readFiles fs directory names).map fun files => { directory, files }

end SourceGroup

namespace Project

variable {m : Type → Type} [Monad m]

/-- Adds source directories to a project, one after the other. -/
def addDirectories (fs : FileSystem m) (extension : String) (p : Project) :
    List String → m (Except LoadError Project)
  | [] => return .ok p
  | directory :: rest => do
    match ← SourceGroup.read fs extension directory with
    | .error e => return .error e
    | .ok group =>
      match (LoadM.addGroup group).run.run p with
      | (.error e, _) => return .error e
      | (.ok (), p) => addDirectories fs extension p rest

/-- The project of some source directories. -/
def ofDirectories (fs : FileSystem m) (extension : String) (directories : List String) :
    m (Except LoadError Project) :=
  addDirectories fs extension {} directories

end Project

end ComponentAbi
