import ComponentAbi.Proofs.Loading.Steps
import ComponentAbi.Proofs.Names.Written
import ComponentAbi.Proofs.Resolve.Chain
import ComponentAbi.Proofs.Resolve.Search

/-!
# Spellings of a type

A type of an interface can be written `ns:pkg/interface.type@version` or
`ns:pkg/interface/type@version`, be taken from the interface with a `use`, or be named inside of it.
All of these lead to its definition (`Project.spellings_agree`).
-/

namespace ComponentAbi

/-- The text names something: it is not empty, and no separator of references is in it. -/
structure IsIdentifier (s : String) : Prop where
  /-- It is not empty. -/
  ne_empty : s ≠ ""
  /-- There is no separator in it. -/
  plain : ∀ sep ∈ ['.', '/', ':', '@'], sep ∉ s.toList

namespace PackageName

/-- The name has a namespace and a path, both made of identifiers. -/
structure Qualified (n : PackageName) : Prop where
  /-- There is a namespace. -/
  namespaces : n.namespaces ≠ []
  /-- There is a path. -/
  path : n.path ≠ []
  /-- All segments are identifiers. -/
  identifiers : ∀ part ∈ n.namespaces ++ n.path, IsIdentifier part

variable {n : PackageName} {part : String}

theorem Qualified.readable (h : n.Qualified) : n.Readable where
  path := h.path
  namespaces part hp :=
    have hid := h.identifiers part (List.mem_append_left _ hp)
    ⟨hid.ne_empty, hid.plain ':' (by simp)⟩
  segments part hp :=
    have hid := h.identifiers part (List.mem_append_right _ hp)
    ⟨hid.ne_empty, hid.plain ':' (by simp), hid.plain '/' (by simp)⟩

theorem Qualified.push (h : n.Qualified) (hpart : IsIdentifier part) : (n.push part).Qualified where
  namespaces := h.namespaces
  path := by simp [PackageName.push]
  identifiers p hp := by
    simp only [PackageName.push, List.mem_append, List.mem_singleton] at hp
    rcases hp with hp | hp | rfl
    · exact h.identifiers p (List.mem_append_left _ hp)
    · exact h.identifiers p (List.mem_append_right _ hp)
    · exact hpart

theorem Qualified.dot_notMem (h : n.Qualified) : '.' ∉ n.toText.toList := by
  intro hm
  rcases exists_mem_of_mem_toText hm with hc | hc | ⟨part, hp, hc⟩
  · exact absurd hc (by decide)
  · exact absurd hc (by decide)
  · exact (h.identifiers part hp).plain '.' (by simp) hc

theorem Qualified.at_notMem (h : n.Qualified) : '@' ∉ n.toText.toList := by
  intro hm
  rcases exists_mem_of_mem_toText hm with hc | hc | ⟨part, hp, hc⟩
  · exact absurd hc (by decide)
  · exact absurd hc (by decide)
  · exact (h.identifiers part hp).plain '@' (by simp) hc

end PackageName

namespace LoadM

variable {scope package : PackageRef} {container : String}

/-- Each used name gets a reference node of its own. -/
theorem exists_gives_useNames (package : PackageRef) (container : String)
    (names : List (String × Option String)) (q : Project) :
    ∃ bound q',
      (names.mapM fun (name, bound) => do
        let type ← alloc (.reference (.used package container name))
        return ({ name, bound := bound.getD name, type } : UseName) : LoadM _).Gives q bound q' ∧
      bound.map (fun n => (n.name, n.bound)) = names.map (fun n => (n.1, n.2.getD n.1)) ∧
      q.arena.Extends q'.arena ∧
      ∀ n ∈ bound, q'.arena.get? n.type = some (.reference (.used package container n.name)) := by
  induction names generalizing q with
  | nil => exact ⟨[], q, gives_mapM_nil.2 ⟨rfl, rfl⟩, rfl, .refl _, by simp⟩
  | cons name rest ih =>
    obtain ⟨name, bound⟩ := name
    let node : TypeNode := .reference (.used package container name)
    let next : Project := { q with arena := (q.arena.alloc node).2 }
    obtain ⟨more, q', hmore, hnames, hextends, hnodes⟩ := ih next
    refine ⟨{ name, bound := bound.getD name, type := (q.arena.alloc node).1 } :: more, q',
      gives_mapM_cons.2 ⟨_, next, more, ?_, hmore, rfl⟩, by simp [hnames],
      (TypeArena.extends_alloc _ _).trans hextends, List.forall_mem_cons.2 ⟨?_, hnodes⟩⟩
    · exact gives_bind.2 ⟨_, next, gives_alloc.2 ⟨rfl, rfl⟩, gives_pure.2 ⟨rfl, rfl⟩⟩
    · exact hextends (TypeArena.get?_alloc_new _ _)

/-- A `use` succeeds if its source can be read, and binds each name to a reference node. -/
theorem exists_gives_use {source : String}
    (hsource : splitReference scope source = .ok (package, container))
    (names : List (String × Option String)) (d : Definitions) (q : Project) :
    ∃ d' q' bound, (use scope source names d).Gives q d' q' ∧
      d' = { d with
        types := bound.foldl (fun types n => types.insert n.bound n.type) d.types
        uses := d.uses ++ [{ package, container, names := bound }] } ∧
      bound.map (fun n => (n.name, n.bound)) = names.map (fun n => (n.1, n.2.getD n.1)) ∧
      ∀ n ∈ bound, q'.arena.get? n.type = some (.reference (.used package container n.name)) := by
  obtain ⟨bound, q', hbound, hnames, -, hnodes⟩ := exists_gives_useNames package container names q
  refine ⟨_, q', bound, gives_bind_liftM.2 ⟨_, hsource, gives_bind.2 ⟨bound, q', hbound,
    gives_pure.2 ⟨rfl, rfl⟩⟩⟩, rfl, hnames, hnodes⟩

/-- A name that is no keyword becomes a reference that is looked up from the scope it stands in. -/
theorem exists_gives_namedType {name : String} (hkeyword : TypeNode.ofKeyword? name = none)
    (hresult : name ≠ "result") (hname : splitReference scope name = .ok (package, container))
    (q : Project) :
    ∃ id q', (namedType scope name).Gives q id q' ∧
      q'.arena.get? id = some (.reference (.named package container)) := by
  let node : TypeNode := .reference (.named package container)
  refine ⟨_, { q with arena := (q.arena.alloc node).2 }, ?_, TypeArena.get?_alloc_new q.arena node⟩
  rw [namedType, hkeyword]
  simp only [if_neg hresult]
  exact gives_bind_liftM.2 ⟨_, hname, gives_alloc.2 ⟨rfl, rfl⟩⟩

end LoadM

/-! ### Reading the spellings -/

section Spellings

variable {package : PackageName} {version : Version} {written container name : String}

theorem PackageName.splitLast?_push (h : package.path ≠ []) :
    (package.push container).splitLast? = some (container, package) := by
  have hlength : ¬(package.push container).path.length < 2 := by
    have := List.length_pos_iff.2 h
    simp [PackageName.push]
    omega
  rw [PackageName.splitLast?, if_neg hlength]
  simp [PackageName.push]

/-- A qualified reference is looked up from the package it names, wherever it stands. -/
theorem splitReference_written (hpackage : package.Qualified) (hcontainer : IsIdentifier container)
    (hversion : Version.parse written = .ok version) (scope : PackageRef) :
    splitReference scope (package.toText ++ "/" ++ container ++ "@" ++ written) =
      .ok ({ name := package, version := some version }, container) := by
  have hpushed := hpackage.push hcontainer
  have hparse := PackageRef.parse_written hpushed.readable hpushed.at_notMem hversion
  rw [PackageName.toText_push hpackage.path] at hparse
  refine splitReference_of_namespaces hparse hpackage.namespaces ?_
  rw [PackageRef.splitLast?, PackageName.splitLast?_push hpackage.path]
  rfl

/-- An identifier is looked up from the scope it stands in. -/
theorem splitReference_identifier (hname : IsIdentifier name) (scope : PackageRef) :
    splitReference scope name = .ok (scope, name) := by
  have hreadable : PackageName.Readable { path := [name] } := by
    refine ⟨by simp, by simp, ?_⟩
    simpa using ⟨hname.ne_empty, hname.plain ':' (by simp), hname.plain '/' (by simp)⟩
  have htext : PackageName.toText { path := [name] } = name := by
    simp [PackageName.toText]
  have hparse := PackageRef.parse_toText_name hreadable (by
    rw [htext]
    exact hname.plain '@' (by simp))
  rw [htext] at hparse
  exact splitReference_of_identifier hparse rfl

end Spellings

namespace Project

variable {p : Project} {package : PackageName} {version : Version} {contents : PackageContents}
  {i : Interface} {written container name : String} {id : TypeId}

/-- Finding a type, from the parts of its reference. -/
theorem findType_of_parts {reference path containerText : String} {ref : PackageRef}
    (hcut : Text.cutLast '@' reference = some (path, written))
    (hsplit : splitTypeReference reference path = .ok (containerText, name))
    (hparse : PackageRef.parse (containerText ++ ("@" ++ written)) = .ok ref)
    (hfind : p.store.findType ref name = .ok id) :
    p.findType reference = (p.resolve id).mapError .resolve := by
  have hnamed : p.findNamed reference = .ok id := by
    rw [findNamed, hcut]
    simp [hsplit, bind, Except.bind, hparse, Except.mapError, hfind]
  rw [findType, hnamed]
  rfl

/-- A type after a dot, in the container that is written before it. -/
theorem findType_dotted (hpackage : package.Qualified) (hcontainer : IsIdentifier container)
    (hname : IsIdentifier name) (hversion : Version.parse written = .ok version)
    (hat : '@' ∉ written.toList)
    (hfind : p.store.findType { name := package.push container, version := some version } name =
      .ok id) :
    p.findType (package.toText ++ "/" ++ container ++ "." ++ name ++ "@" ++ written) =
      (p.resolve id).mapError .resolve := by
  have hpushed := hpackage.push hcontainer
  rw [← PackageName.toText_push hpackage.path]
  have hdot : Text.cutLast '.' ((package.push container).toText ++ "." ++ name) =
      some ((package.push container).toText, name) :=
    Text.cutLast_of_toList (by simp) (hname.plain '.' (by simp))
  have hcut : Text.cutLast '@' ((package.push container).toText ++ "." ++ name ++ "@" ++ written) =
      some ((package.push container).toText ++ "." ++ name, written) :=
    Text.cutLast_of_toList (by simp) hat
  have hparse := PackageRef.parse_written hpushed.readable hpushed.at_notMem hversion
  rw [String.append_assoc] at hparse
  refine findType_of_parts hcut ?_ hparse hfind
  rw [splitTypeReference, hdot]

/-- A type after a slash, as the last segment of its path. -/
theorem findType_slashed (hpackage : package.Qualified) (hcontainer : IsIdentifier container)
    (hname : IsIdentifier name) (hversion : Version.parse written = .ok version)
    (hat : '@' ∉ written.toList)
    (hfind : p.store.findType { name := package.push container, version := some version } name =
      .ok id) :
    p.findType (package.toText ++ "/" ++ container ++ "/" ++ name ++ "@" ++ written) =
      (p.resolve id).mapError .resolve := by
  have hpushed := hpackage.push hcontainer
  have hwhole := hpushed.push hname
  rw [← PackageName.toText_push hpackage.path, ← PackageName.toText_push hpushed.path]
  have hcut : Text.cutLast '@' (((package.push container).push name).toText ++ "@" ++ written) =
      some (((package.push container).push name).toText, written) :=
    Text.cutLast_of_toList (by simp) hat
  have hparse := PackageRef.parse_written hpushed.readable hpushed.at_notMem hversion
  rw [String.append_assoc] at hparse
  refine findType_of_parts hcut ?_ hparse hfind
  rw [splitTypeReference, Text.cutLast_eq_none hwhole.dot_notMem,
    PackageRef.parse_toText_name hwhole.readable hwhole.at_notMem]
  simp [Except.mapError, bind, Except.bind, PackageRef.splitLast?,
    PackageName.splitLast?_push hpushed.path, PackageRef.toText]
  rfl

/-- All spellings of a type of an interface lead to its definition: after a dot and after a slash,
by a `use` in any scope, and by its name inside the interface. Where the references of the
definition itself lead nowhere, none of the spellings leads anywhere, and in the same way. -/
theorem spellings_agree (hpackage : package.Qualified) (hcontainer : IsIdentifier container)
    (hname : IsIdentifier name) (hversion : Version.parse written = .ok version)
    (hat : '@' ∉ written.toList) (hkeyword : TypeNode.ofKeyword? name = none)
    (hresult : name ≠ "result")
    (hcontents : p.store.lookup { name := package, version := some version } = .ok contents)
    (hi : contents.definitions.interfaces.find? container = some i)
    (hid : i.definitions.types.find? name = some id)
    (hnested : p.store.find? (package.push container) = none)
    (hworld : contents.worlds.find? container = none) :
    p.findType (package.toText ++ "/" ++ container ++ "." ++ name ++ "@" ++ written) =
        (p.resolve id).mapError .resolve ∧
      p.findType (package.toText ++ "/" ++ container ++ "/" ++ name ++ "@" ++ written) =
        (p.resolve id).mapError .resolve ∧
      (∀ (scope : PackageRef) (names : List (String × Option String)) (d : Definitions)
          (q : Project), ∃ d' q' decl,
        (LoadM.use scope (package.toText ++ "/" ++ container ++ "@" ++ written) names d).Gives
            q d' q' ∧
          d' = { d with
            types := decl.names.foldl (fun types n => types.insert n.bound n.type) d.types
            uses := d.uses ++ [decl] } ∧
          decl.names.map (fun n => (n.name, n.bound)) = names.map (fun n => (n.1, n.2.getD n.1)) ∧
          ∀ n ∈ decl.names, n.name = name → p.arena.get? n.type = q'.arena.get? n.type →
            PackageStore.Alike (p.resolve n.type) (p.resolve id)) ∧
      ∀ (spelled : Version), version.same spelled → ∀ q : Project, ∃ l q',
        (LoadM.namedType { name := package.push container, version := some spelled } name).Gives
            q l q' ∧
          (p.arena.get? l = q'.arena.get? l →
            PackageStore.Alike (p.resolve l) (p.resolve id)) := by
  have hhop := PackageStore.hop_named hpackage.path hcontents hi hworld hnested hid
  have hfind : p.store.findType { name := package.push container, version := some version } name =
    .ok id := hhop
  refine ⟨findType_dotted hpackage hcontainer hname hversion hat hfind,
    findType_slashed hpackage hcontainer hname hversion hat hfind, ?_, ?_⟩
  · intro scope names d q
    obtain ⟨d', q', bound, hgives, huses, hnames, hnodes⟩ := LoadM.exists_gives_use
      (splitReference_written hpackage hcontainer hversion scope) names d q
    let source : PackageRef := { name := package, version := some version }
    refine ⟨d', q', { package := source, container, names := bound }, hgives, huses, hnames,
      fun n hn hnname hkept => ?_⟩
    refine PackageStore.alike_resolve_of_leads ⟨_, (hkept.trans (hnodes n hn)), ?_⟩
    rw [hnname]
    exact PackageStore.hop_used hcontents hi hworld hid
  · intro spelled hsame q
    obtain ⟨l, q', hgives, hnode⟩ := LoadM.exists_gives_namedType hkeyword hresult
      (splitReference_identifier hname { name := package.push container, version := some spelled }) q
    refine ⟨l, q', hgives, fun hkept => ?_⟩
    refine PackageStore.alike_resolve_of_leads ⟨_, hkept.trans hnode, ?_⟩
    exact PackageStore.hop_named hpackage.path (PackageStore.lookup_of_same hsame hcontents) hi
      hworld hnested hid

/-- A package with a point, and with an interface that only passes the point on. -/
def reexporting : Project :=
  let geo : PackageRef :=
    { name := { namespaces := ["ns"], path := ["geo"] }, version := some ⟨1, 0, 0, "", ""⟩ }
  let base : Interface :=
    { name := "base", package := geo, functions := [], type := ⟨2⟩,
      definitions := { types := ⟨[("point", ⟨0⟩)]⟩ } }
  let shapes : Interface :=
    { name := "shapes", package := geo, functions := [], type := ⟨3⟩,
      definitions := { types := ⟨[("point", ⟨1⟩)]⟩ } }
  { arena := ⟨#[.record { package := geo, name := "point" } [],
      .reference (.used geo "base" "point"),
      .interface { package := geo, name := "base" }, .interface { package := geo, name := "shapes" }]⟩,
    store := ⟨[{ name := geo.name, versions := [(geo.version,
      { definitions := { interfaces := ⟨[("base", base), ("shapes", shapes)]⟩ } })] }]⟩ }

theorem spellings_agree_reexported :
    reexporting.findType "ns:geo/shapes.point@1.0.0" =
        (reexporting.resolve ⟨1⟩).mapError .resolve ∧
      reexporting.findType "ns:geo/shapes/point@1.0.0" =
        (reexporting.resolve ⟨1⟩).mapError .resolve := by
  have hidentifier : ∀ s ∈ ["ns", "geo", "shapes", "point"], IsIdentifier s := by
    simp only [List.forall_mem_cons, List.not_mem_nil, IsEmpty.forall_iff, implies_true, and_true]
    exact ⟨⟨by decide, by simp⟩, ⟨by decide, by simp⟩, ⟨by decide, by simp⟩, ⟨by decide, by simp⟩⟩
  have hpackage : PackageName.Qualified { namespaces := ["ns"], path := ["geo"] } :=
    ⟨by simp, by simp, fun part hp => hidentifier part (by simp at hp ⊢; tauto)⟩
  have hversion : Version.parse "1.0.0" = .ok ⟨1, 0, 0, "", ""⟩ := rfl
  have h := spellings_agree (p := reexporting) hpackage (hidentifier "shapes" (by simp))
    (hidentifier "point" (by simp)) hversion (by decide) rfl (by decide) rfl rfl rfl rfl rfl
  exact ⟨h.1, h.2.1⟩

end Project

end ComponentAbi
