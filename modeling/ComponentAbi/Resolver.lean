import ComponentAbi.Package
import ComponentAbi.ResolveError

/-!
# Name resolution

A name is looked up from a scope `ns:a/b/c` outwards. The longest leading part of the scope that is
a package comes first; the segments after it are walked as nested worlds and interfaces, all of them
first and then ever fewer. If nothing there has the name, the search goes on with the next shorter
package name. Reference nodes are followed until a node with a shape of its own is reached.
-/

namespace ComponentAbi

/-- A named scope that holds types and further scopes. -/
inductive Container where
  | package (contents : PackageContents)
  | world (world : World)
  | interface (interface : Interface)
deriving Repr

namespace Container

/-- The definitions of a container. -/
def definitions : Container → Definitions
  | package contents => contents.definitions
  | world w => w.definitions
  | interface i => i.definitions

/-- The type of a name. -/
def type? (c : Container) (name : String) : Option TypeId :=
  c.definitions.types.find? name

/-- The nested container of a name. In a package, a world hides an interface of the same name. -/
def nested? (c : Container) (name : String) : Option Container :=
  let nestedInterface := (c.definitions.interfaces.find? name).map interface
  match c with
  | package contents => ((contents.worlds.find? name).map world).or nestedInterface
  | _ => nestedInterface

/-- The container reached by walking nested names. -/
def walk? (c : Container) (names : List String) : Option Container :=
  names.foldlM nested? c

end Container

namespace PackageStore

/-- The contents that a package reference names. -/
def lookup (s : PackageStore) (ref : PackageRef) : Except ResolveError PackageContents :=
  match s.contents? ref with
  | some contents => .ok contents
  | none => .error (.unknownPackage ref.toText)

/-- How the place that is reached by walking `names` from `package` is written. -/
def location (package : PackageRef) (names : List String) : String :=
  String.join (package.toText :: names.map ("/" ++ ·))

/-- Probes the container reached from `root` by walking `names`. Without a match, says what is
wrong with the place. -/
def probeAt {α : Type} (probe : Container → Option α) (package : PackageRef) (root : Container)
    (names : List String) : Except String α :=
  match root.walk? names with
  | none => .error ("no container '" ++ location package names ++ "'")
  | some container =>
    match probe container with
    | some found => .ok found
    | none => .error ("not found in '" ++ location package names ++ "'")

/-- Probes the containers reached from `root` by the first `depth` of `names`, then by ever fewer of
them. Without a match, says what is wrong with each place. -/
def searchWithin {α : Type} (probe : Container → Option α) (package : PackageRef)
    (root : Container) (names : List String) : Nat → Except (List String) α
  | 0 => (probeAt probe package root []).mapError fun attempt => [attempt]
  | depth + 1 =>
    match probeAt probe package root (names.take (depth + 1)) with
    | .ok found => .ok found
    | .error attempt =>
      (searchWithin probe package root names depth).mapError fun more => attempt :: more

/-- Probes the places of one package name. -/
def searchPackage {α : Type} (s : PackageStore) (probe : Container → Option α)
    (package : PackageRef) (names : List String) : Except (List String) α :=
  match s.lookup package with
  | .ok contents => searchWithin probe package (.package contents) names names.length
  | .error unknown => .error [unknown.message]

/-- Visits a package name, then ever shorter ones, until one has what is looked for. The path of the
name is given last segment first, and `stripped` are the segments that were already cut off. -/
def outwardsFrom {α : Type} (visit : PackageRef → List String → Except (List String) α)
    (namespaces : List String) (version : Option Version) :
    (stripped reversedPath : List String) → Except (List String) α
  | stripped, [] => visit { name := { namespaces }, version } stripped
  | stripped, last :: outer =>
    let path := (last :: outer).reverse
    match visit { name := { namespaces, path }, version } stripped with
    | .ok found => .ok found
    | .error attempts =>
      if outer.isEmpty then .error attempts
      else (outwardsFrom visit namespaces version (last :: stripped) outer).mapError fun more =>
        attempts ++ more

/-- Visits the package name `package` and then ever shorter ones, each with the segments that were
cut off. Without success, answers all attempts in order. -/
def outwards {α : Type} (visit : PackageRef → List String → Except (List String) α)
    (package : PackageRef) : Except (List String) α :=
  outwardsFrom visit package.name.namespaces package.version [] package.name.path.reverse

/-- Finds what `probe` accepts in the scope `package` or outside of it. Without a match, says which
places were tried, in order. -/
def search {α : Type} (s : PackageStore) (probe : Container → Option α) (package : PackageRef) :
    Except (List String) α :=
  outwards (s.searchPackage probe) package

/-- The type that a name stands for in a scope. -/
def findType (s : PackageStore) (package : PackageRef) (name : String) :
    Except ResolveError TypeId :=
  (s.search (·.type? name) package).mapError fun attempts =>
    .unresolvedType name package.toText attempts

/-- The interface or world that a name stands for in a scope. -/
def findContainer (s : PackageStore) (package : PackageRef) (name : String) :
    Except ResolveError Container :=
  (s.search (·.nested? name) package).mapError fun attempts =>
    .unresolvedContainer name package.toText attempts

/-- The node that a reference leads to in one hop. -/
def hop (s : PackageStore) : Reference → Except ResolveError TypeId
  | .named package name => s.findType package name
  | .used package container name => do
    let origin ← s.findContainer package container
    match origin.type? name with
    | some id => return id
    | none =>
      throw (.unresolvedType name package.toText ["not defined in '" ++ container ++ "'"])

/-- Follows references from `id` for at most `hops` hops, none of them from a node in `visited`. -/
def follow (s : PackageStore) (arena : TypeArena) :
    Nat → List TypeId → TypeId → Except ResolveError TypeId
  | 0, _, id => .error (.unknownTypeId id)
  | hops + 1, visited, id =>
    match arena.get? id with
    | none => .error (.unknownTypeId id)
    | some (.reference target) =>
      if id ∈ visited then .error (.aliasCycle target.toText)
      else do follow s arena hops (id :: visited) (← s.hop target)
    | some _ => .ok id

/-- The node with a shape of its own that `id` stands for. A chain of references that does not
revisit a node has at most as many hops as the arena has nodes. -/
def resolve (s : PackageStore) (arena : TypeArena) (id : TypeId) : Except ResolveError TypeId :=
  s.follow arena (arena.size + 1) [] id

end PackageStore

end ComponentAbi
