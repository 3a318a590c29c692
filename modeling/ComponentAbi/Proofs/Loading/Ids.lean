import ComponentAbi.Proofs.Worlds.Origin

/-!
# Ids in the data

The ids that nodes, interfaces, worlds and packages have in them. Adding to any of these adds no ids
but those of what is added (`DefinitionsOf.below_merge`, `PackageStore.below_insert`).
-/

namespace ComponentAbi

/-! ### Bounds -/

/-- All of the ids are below the bound. -/
def TypeId.Below (n : Nat) (ids : List TypeId) : Prop :=
  ∀ id ∈ ids, id.index < n

section Below

variable {m n : Nat} {id : TypeId} {ids ids' : List TypeId}

theorem TypeId.Below.mono (h : TypeId.Below n ids) (hle : n ≤ m) : TypeId.Below m ids :=
  fun id hid => Nat.lt_of_lt_of_le (h id hid) hle

@[simp] theorem TypeId.below_nil : TypeId.Below n [] :=
  fun _ h => absurd h List.not_mem_nil

@[simp] theorem TypeId.below_cons :
    TypeId.Below n (id :: ids) ↔ id.index < n ∧ TypeId.Below n ids :=
  List.forall_mem_cons

@[simp] theorem TypeId.below_append :
    TypeId.Below n (ids ++ ids') ↔ TypeId.Below n ids ∧ TypeId.Below n ids' :=
  List.forall_mem_append

@[simp] theorem TypeId.below_flatMap {α : Type} {f : α → List TypeId} {xs : List α} :
    TypeId.Below n (xs.flatMap f) ↔ ∀ x ∈ xs, TypeId.Below n (f x) := by
  simp only [TypeId.Below, List.mem_flatMap]
  exact ⟨fun h x hx id hid => h id ⟨x, hx, hid⟩, fun h id ⟨x, hx, hid⟩ => h x hx id hid⟩

end Below

/-! ### Nodes -/

/-- The functions attached to a resource. -/
def ResourceType.members (r : ResourceType) : List TypeId :=
  (r.constructors ++ r.methods ++ r.statics).map (·.func) ++ r.drop.toList

namespace TypeNode

/-- The types that a node is made of. The functions of a resource are not part of it. -/
def children : TypeNode → List TypeId
  | list element => [element]
  | tuple elements => elements
  | option payload => [payload]
  | result ok err => ok.toList ++ err.toList
  | record _ fields => fields.map (·.2)
  | variant _ cases => cases.flatMap (·.2.toList)
  | borrow id => [id]
  | function f => f.paramTypes ++ f.results
  | stream element => element.toList
  | future value => value.toList
  | scalar _ | string | enum .. | flags .. | resource _ | interface _ | world _ | reference _ => []

/-- The functions of a node, if it is a resource. -/
def members : TypeNode → List TypeId
  | resource r => r.members
  | _ => []

theorem no_ids_of_ofKeyword? {keyword : String} {node : TypeNode}
    (h : ofKeyword? keyword = some node) : node.children = [] ∧ node.members = [] := by
  rw [ofKeyword?] at h
  split at h
  · cases h
    exact ⟨rfl, rfl⟩
  · obtain ⟨s, -, rfl⟩ := Option.map_eq_some_iff.1 h
    exact ⟨rfl, rfl⟩

end TypeNode

/-! ### Packages -/

/-- The ids in a `use` declaration. -/
def UseDecl.ids (d : UseDecl) : List TypeId :=
  d.names.map (·.type)

mutual

/-- The ids in an interface: of its types, of the interfaces in it, of its `use` declarations, of
its functions, and its own. -/
def Interface.ids : Interface → List TypeId
  | ⟨_, _, ⟨types, ⟨interfaces⟩, uses⟩, functions, type⟩ =>
    types.values ++ idsAll interfaces ++ uses.flatMap UseDecl.ids ++ functions.map (·.func)
      ++ [type]
termination_by structural i => i

/-- The ids in interfaces. -/
def Interface.idsAll : List (String × Interface) → List TypeId
  | [] => []
  | (_, i) :: rest => i.ids ++ idsAll rest
termination_by structural entries => entries

end

/-- The ids in definitions. -/
def DefinitionsOf.ids (d : Definitions) : List TypeId :=
  d.types.values ++ d.interfaces.values.flatMap Interface.ids ++ d.uses.flatMap UseDecl.ids

/-- The id in an import or export, if it is a function. -/
def WorldItem.ids (item : WorldItem) : List TypeId :=
  match item.kind with
  | .function type => [type]
  | .interface .. => []

/-- The ids in a world. -/
def World.ids (w : World) : List TypeId :=
  w.definitions.ids ++ (w.imports ++ w.exports).flatMap WorldItem.ids ++ [w.type]

/-- The ids in the contents of a package. -/
def PackageContents.ids (c : PackageContents) : List TypeId :=
  c.worlds.values.flatMap World.ids ++ c.definitions.ids

/-- The ids in all packages. -/
def PackageStore.ids (s : PackageStore) : List TypeId :=
  s.packages.flatMap fun p => p.versions.flatMap fun e => e.2.ids

theorem Interface.ids_eq (i : Interface) :
    i.ids = i.definitions.ids ++ i.functions.map (·.func) ++ [i.type] := by
  have hall (entries : List (String × Interface)) :
      idsAll entries = (entries.map (·.2)).flatMap ids := by
    induction entries with
    | nil => rfl
    | cons entry rest ih =>
      rw [idsAll, ih]
      rfl
  obtain ⟨name, package, ⟨types, ⟨interfaces⟩, uses⟩, functions, type⟩ := i
  rw [ids, hall]
  rfl

/-! ### Insertions -/

section Adding

variable {n : Nat}

theorem NameMap.forall_values_insert {α : Type} {P : α → Prop} {m : NameMap α} {name : String}
    {value : α} (h : ∀ v ∈ m.values, P v) (hvalue : P value) :
    ∀ v ∈ (m.insert name value).values, P v := by
  intro v hv
  obtain ⟨e, he, rfl⟩ := List.mem_map.1 hv
  rcases mem_insert he with rfl | he
  · exact hvalue
  · exact h _ (List.mem_map_of_mem he)

theorem NameMap.forall_values_foldl_insert {ι α : Type} {P : α → Prop} {key : ι → String}
    {value : ι → α} {items : List ι} {m : NameMap α} (h : ∀ v ∈ m.values, P v)
    (hitems : ∀ x ∈ items, P (value x)) :
    ∀ v ∈ (items.foldl (fun acc x => acc.insert (key x) (value x)) m).values, P v := by
  induction items generalizing m with
  | nil => exact h
  | cons x rest ih =>
    obtain ⟨hfirst, hrest⟩ := List.forall_mem_cons.1 hitems
    exact ih (forall_values_insert h hfirst) hrest

theorem NameMap.forall_values_merge {α : Type} {P : α → Prop} {m later : NameMap α}
    (h : ∀ v ∈ m.values, P v) (hlater : ∀ v ∈ later.values, P v) :
    ∀ v ∈ (m.merge later).values, P v :=
  forall_values_foldl_insert h fun _ he => hlater _ (List.mem_map_of_mem he)

theorem DefinitionsOf.below_ids {d : Definitions} : TypeId.Below n d.ids ↔
    TypeId.Below n d.types.values ∧ (∀ i ∈ d.interfaces.values, TypeId.Below n i.ids) ∧
      ∀ u ∈ d.uses, TypeId.Below n u.ids := by
  simp [DefinitionsOf.ids]

theorem DefinitionsOf.below_bind {d : Definitions} {name : String} {id : TypeId}
    (h : TypeId.Below n d.ids) (hid : id.index < n) :
    TypeId.Below n (DefinitionsOf.ids { d with types := d.types.insert name id }) := by
  obtain ⟨htypes, hothers⟩ := below_ids.1 h
  exact below_ids.2 ⟨NameMap.forall_values_insert htypes hid, hothers⟩

theorem DefinitionsOf.below_merge {d later : Definitions} (h : TypeId.Below n d.ids)
    (hlater : TypeId.Below n later.ids) : TypeId.Below n (d.merge later).ids := by
  obtain ⟨htypes, hinterfaces, huses⟩ := below_ids.1 h
  obtain ⟨htypes', hinterfaces', huses'⟩ := below_ids.1 hlater
  exact below_ids.2 ⟨NameMap.forall_values_merge htypes htypes',
    NameMap.forall_values_merge hinterfaces hinterfaces',
    List.forall_mem_append.2 ⟨huses, huses'⟩⟩

theorem PackageContents.below_merge {c later : PackageContents} (h : TypeId.Below n c.ids)
    (hlater : TypeId.Below n later.ids) : TypeId.Below n (c.merge later).ids := by
  obtain ⟨hworlds, hdefinitions⟩ := TypeId.below_append.1 h
  obtain ⟨hworlds', hdefinitions'⟩ := TypeId.below_append.1 hlater
  refine TypeId.below_append.2 ⟨TypeId.below_flatMap.2 ?_,
    DefinitionsOf.below_merge hdefinitions hdefinitions'⟩
  exact NameMap.forall_values_merge (TypeId.below_flatMap.1 hworlds)
    (TypeId.below_flatMap.1 hworlds')

theorem PackageStore.below_ids {s : PackageStore} :
    TypeId.Below n s.ids ↔ ∀ c, s.Contains c → TypeId.Below n c.ids := by
  simp only [PackageStore.ids, TypeId.below_flatMap, PackageStore.Contains]
  constructor
  · rintro h c ⟨p, hp, e, he, rfl⟩
    exact h p hp e he
  · exact fun h p hp e he => h _ ⟨p, hp, e, he, rfl⟩

theorem PackageStore.below_insert {s : PackageStore} {ref : PackageRef} {new : PackageContents}
    (h : TypeId.Below n s.ids) (hnew : TypeId.Below n new.ids) :
    TypeId.Below n (s.insert ref new).ids := by
  refine below_ids.2 fun c hc => ?_
  rcases contains_insert hc with hc | rfl | ⟨old, hold, rfl⟩
  · exact below_ids.1 h c hc
  · exact hnew
  · exact PackageContents.below_merge (below_ids.1 h old hold) hnew

end Adding

end ComponentAbi
