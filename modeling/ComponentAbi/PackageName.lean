import ComponentAbi.Version

/-!
# Package names and references

A package name such as `ns:group/name` has namespaces (`ns`) and a path (`group`, `name`). With an
optional version (`ns:group/name@1.2.3`) it is a package reference. A name without a namespace is
relative to an enclosing package.
-/

namespace ComponentAbi

/-- Why a text is not a package reference. -/
inductive NameError where
  /-- The text is empty. -/
  | empty
  /-- A namespace or path segment of the text is empty. -/
  | emptySegment (name : String)
  /-- Nothing follows the namespace. -/
  | missingName (name : String)
  /-- What follows the `@` of the text is not a version. -/
  | version (name : String) (cause : VersionError)
deriving DecidableEq, Repr

namespace NameError

/-- The wording of the error. -/
def message : NameError → String
  | empty => "Empty package name"
  | emptySegment name => "Empty segment in package name '" ++ name ++ "'"
  | missingName name => "Package name '" ++ name ++ "' has a namespace but no name"
  | version name cause => "Invalid version in package name '" ++ name ++ "': " ++ cause.message

end NameError

/-- A package name: `ns:group/name` has the namespace `ns` and the path `group`, `name`. -/
structure PackageName where
  /-- The segments before the last colon. -/
  namespaces : List String := []
  /-- The segments after it. -/
  path : List String := []
deriving DecidableEq, Repr, Inhabited

namespace PackageName

/-- Reads a package name. The path starts after the last colon. -/
def parse (s : String) : Except NameError PackageName := do
  if s.isEmpty then throw .empty
  let (namespaces, tail) := match Text.cutLast ':' s with
    | some (front, back) => (Text.pieces ':' front, back)
    | none => ([], s)
  let path := Text.pieces '/' tail
  if tail.isEmpty then throw (.missingName s)
  if namespaces.any String.isEmpty || path.any String.isEmpty then throw (.emptySegment s)
  return { namespaces, path }

/-- The written form. -/
def toText (n : PackageName) : String :=
  let path := String.intercalate "/" n.path
  if n.namespaces.isEmpty then path else String.intercalate ":" n.namespaces ++ ":" ++ path

/-- The name has no namespace, so it is relative to some scope. -/
def isIdentifierOnly (n : PackageName) : Bool :=
  n.namespaces.isEmpty

/-- Splits off the last path segment. A package cannot be addressed by its namespaces alone, so at
least one segment must remain. -/
def splitLast? (n : PackageName) : Option (String × PackageName) :=
  if n.path.length < 2 then none
  else n.path.getLast?.map fun last => (last, { n with path := n.path.dropLast })

/-- Appends a path segment. -/
def push (n : PackageName) (part : String) : PackageName :=
  { n with path := n.path ++ [part] }

/-- Namespaces first, then the path, each segment by segment. -/
def compare (m n : PackageName) : Ordering :=
  (List.compareLex Ord.compare m.namespaces n.namespaces).then
    (List.compareLex Ord.compare m.path n.path)

end PackageName

/-- A package name with an optional version. -/
structure PackageRef where
  /-- The unversioned name. -/
  name : PackageName := {}
  /-- The version after the `@`, if any. -/
  version : Option Version := none
deriving DecidableEq, Repr, Inhabited

namespace PackageRef

/-- Reads a package reference. The version starts after the first `@`, and is read before the
name. -/
def parse (s : String) : Except NameError PackageRef :=
  match Text.cutFirst '@' s with
  | some (front, back) => do
    let version ← (Version.parse back).mapError (NameError.version s ·)
    let name ← PackageName.parse front
    return { name, version := some version }
  | none => do
    let name ← PackageName.parse s
    return { name }

/-- The written form. -/
def toText (p : PackageRef) : String :=
  match p.version with
  | some version => p.name.toText ++ "@" ++ version.toText
  | none => p.name.toText

/-- The reference has no namespace. -/
def isIdentifierOnly (p : PackageRef) : Bool :=
  p.name.isIdentifierOnly

/-- `PackageName.splitLast?`, keeping the version on the shorter name. -/
def splitLast? (p : PackageRef) : Option (String × PackageRef) :=
  p.name.splitLast?.map fun (last, name) => (last, { p with name })

/-- Appends a path segment, keeping the version. -/
def push (p : PackageRef) (part : String) : PackageRef :=
  { p with name := p.name.push part }

/-- The two optional versions are both absent, or name the same version. -/
def sameVersion : Option Version → Option Version → Bool
  | none, none => true
  | some v, some w => v.same w
  | _, _ => false

/-- The two references name the same package: build metadata does not matter. -/
def same (p q : PackageRef) : Bool :=
  p.name == q.name && sameVersion p.version q.version

end PackageRef

/-- The identity of a named shape: the scope that declares it and its local name. -/
structure TypeName where
  /-- The declaring scope; default for a name without scope. -/
  package : PackageRef := {}
  /-- The local name. -/
  name : String := ""
deriving DecidableEq, Repr, Inhabited

namespace TypeName

/-- The written form; a name without scope is written alone. -/
def toText (n : TypeName) : String :=
  if n.package.name.path.isEmpty then n.name else n.package.toText ++ "." ++ n.name

end TypeName

end ComponentAbi
