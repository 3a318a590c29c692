import ComponentAbi.Text.Decimal
import ComponentAbi.Text.Separated

/-!
# Package versions

A version is three numbers with an optional pre-release and optional build metadata, written
`1.2.3-rc.1+build.5`. Versions are ordered by precedence (`Version.compare`), which does not look at
build metadata: `1.0.0+a` and `1.0.0+b` name the same version of a package.
-/

namespace ComponentAbi

/-- A semantic version. -/
structure Version where
  /-- First number. -/
  major : UInt64
  /-- Second number. -/
  minor : UInt64
  /-- Third number. -/
  patch : UInt64
  /-- Dot-separated pre-release identifiers; empty for a release. -/
  pre : String := ""
  /-- Build metadata; empty if there is none. -/
  build : String := ""
deriving DecidableEq, Repr, Inhabited

/-- The number of a version that an error is about. -/
inductive VersionComponent where
  | major
  | minor
  | patch
deriving DecidableEq, Repr

namespace VersionComponent

/-- The name of the component in messages. -/
def name : VersionComponent → String
  | major => "major"
  | minor => "minor"
  | patch => "patch"

end VersionComponent

/-- Why a text is not a version. -/
inductive VersionError where
  /-- The text is empty. -/
  | empty
  /-- A number is absent or empty in the text `full`. -/
  | missingComponent (component : VersionComponent) (full : String)
  /-- `value` is not a number of at most 64 bits. -/
  | invalidNumber (component : VersionComponent) (value : String)
  /-- The text `full` has more than three numbers. -/
  | trailingComponent (full : String)
deriving DecidableEq, Repr

namespace VersionError

/-- The wording of the error. -/
def message : VersionError → String
  | empty => "Empty version string"
  | missingComponent component full =>
    "Missing " ++ component.name ++ " version component in '" ++ full ++ "'"
  | invalidNumber component value =>
    "Invalid " ++ component.name ++ " version component '" ++ value ++ "'"
  | trailingComponent full => "Unexpected extra version component in '" ++ full ++ "'"

end VersionError

namespace Version

/-! ### Reading and writing -/

/-- Reads one of the three numbers of the version written `full`. -/
def readComponent (component : VersionComponent) (full : String) :
    Option String → Except VersionError UInt64
  | none => .error (.missingComponent component full)
  | some piece =>
    if piece.isEmpty then .error (.missingComponent component full)
    else match Decimal.readWord? piece with
      | some n => .ok n
      | none => .error (.invalidNumber component piece)

/-- Reads a version. Build metadata starts at the first `+` of the text, and the pre-release at the
first `-` before it. -/
def parse (s : String) : Except VersionError Version := do
  if s.isEmpty then throw .empty
  let (rest, build) := (Text.cutFirst '+' s).getD (s, "")
  let (numbers, pre) := (Text.cutFirst '-' rest).getD (rest, "")
  let parts := Text.pieces '.' numbers
  let major ← readComponent .major s parts[0]?
  let minor ← readComponent .minor s parts[1]?
  let patch ← readComponent .patch s parts[2]?
  if parts.length > 3 then throw (.trailingComponent s)
  return { major, minor, patch, pre, build }

/-- The written form: an empty pre-release and empty build metadata leave no separator. -/
def toText (v : Version) : String :=
  let numbers := toString v.major ++ "." ++ toString v.minor ++ "." ++ toString v.patch
  let pre := if v.pre.isEmpty then "" else "-" ++ v.pre
  let build := if v.build.isEmpty then "" else "+" ++ v.build
  numbers ++ pre ++ build

/-- A version with a pre-release comes before its release. -/
def isPrerelease (v : Version) : Bool :=
  !v.pre.isEmpty

/-! ### Precedence -/

/-- Precedence of two pre-release identifiers: numbers by value and before all other texts, which
are compared by their characters. An identifier that does not fit 64 bits is not a number. -/
def compareIdentifiers (x y : String) : Ordering :=
  match Decimal.readWord? x, Decimal.readWord? y with
  | some m, some n => Ord.compare m n
  | some _, none => .lt
  | none, some _ => .gt
  | none, none => Ord.compare x y

/-- Precedence of two pre-releases. The empty one, which marks a release, is the greatest. -/
def comparePre (p q : String) : Ordering :=
  match p.isEmpty, q.isEmpty with
  | true, true => .eq
  | false, true => .lt
  | true, false => .gt
  | false, false => List.compareLex compareIdentifiers (Text.pieces '.' p) (Text.pieces '.' q)

/-- Precedence of versions: the numbers from left to right, then the pre-releases. -/
def compare (v w : Version) : Ordering :=
  (Ord.compare v.major w.major).then <| (Ord.compare v.minor w.minor).then <|
    (Ord.compare v.patch w.patch).then <| comparePre v.pre w.pre

/-- The two versions name the same version of a package: neither comes before the other. -/
def same (v w : Version) : Bool :=
  v.compare w == .eq

/-- What a hash table sees of a version. -/
def hashKey (v : Version) : UInt64 × UInt64 × UInt64 × String :=
  (v.major, v.minor, v.patch, v.pre)

end Version

end ComponentAbi
