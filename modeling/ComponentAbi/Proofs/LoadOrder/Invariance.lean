import ComponentAbi.Proofs.LoadOrder.Shapes
import ComponentAbi.Proofs.Pointwise
import ComponentAbi.Proofs.Worlds.Expansion

/-!
# Loading order does not matter

Groups that declare different names may be loaded in any order: the same references are found, the
types that they name are described, flattened and laid out alike, and every world has the same
functions in the same order, with the same signatures (`Project.alike_of_perm`). Only the ids of the
nodes depend on the order.
-/

namespace ComponentAbi

variable {ρ : TypeId → TypeId}

theorem Except.bind_map {ε α α' β β' : Type} {x : Except ε α} {f : α → Except ε β}
    {g : α' → Except ε β'} {e : α → α'} {r : β → β'} (h : ∀ a, g (e a) = (f a).map r) :
    (x.map e >>= g) = (x >>= f).map r := by
  cases x with
  | error e => rfl
  | ok a => exact h a

theorem Except.mapM_map_of {ε α α' β β' : Type} {f : α → Except ε β} {g : α' → Except ε β'}
    {e : α → α'} {r : β → β'} (h : ∀ x, g (e x) = (f x).map r) (xs : List α) :
    (xs.map e).mapM g = (xs.mapM f).map (List.map r) := by
  induction xs with
  | nil => rfl
  | cons x rest ih =>
    rw [List.map_cons, List.mapM_cons, List.mapM_cons, h, ih]
    exact Except.bind_map fun y => Except.bind_map fun ys => rfl

/-! ### Entries -/

namespace WorldFunction

variable {f g : WorldFunction}

/-- The entry with its function renamed. -/
def rename (ρ : TypeId → TypeId) (f : WorldFunction) : WorldFunction :=
  { f with func := ρ f.func }

/-- The node of a function does not matter to its entry. -/
theorem distinct_map (functions : List WorldFunction) :
    distinct (functions.map (rename ρ)) = (distinct functions).map (rename ρ) := by
  suffices hall : ∀ kept : List WorldFunction,
      (functions.map (rename ρ)).foldl
          (fun kept f => if kept.any f.sameEntry then kept else f :: kept) (kept.map (rename ρ)) =
        (functions.foldl (fun kept f => if kept.any f.sameEntry then kept else f :: kept)
          kept).map (rename ρ) by
    rw [distinct, distinct, List.map_reverse]
    exact congrArg List.reverse (hall [])
  -- An entry is compared with those that were kept before it, which are renamed as well.
  induction functions with
  | nil => exact fun _ => rfl
  | cons f rest ih =>
    intro kept
    have hany : (kept.map (rename ρ)).any (f.rename ρ).sameEntry = kept.any f.sameEntry := by
      rw [List.any_map]
      rfl
    rw [List.map_cons, List.foldl_cons, List.foldl_cons, hany]
    split
    · exact ih kept
    · exact ih (f :: kept)

end WorldFunction

namespace Project

variable {p q : Project}

/-- The functions attached to a node that is known as `name`, if it is a resource. -/
def attachedFunctions (p : Project) (name : String) (id : TypeId) : List (String × TypeId) :=
  match p.arena.get? id with
  | some (.resource r) => resourceFunctions name r
  | _ => []

theorem resourceFunctions_rename (name : String) (r : ResourceType) :
    resourceFunctions name (r.rename ρ) =
      (resourceFunctions name r).map fun x => (x.1, ρ x.2) := by
  simp only [resourceFunctions, ResourceType.rename, List.map_append, List.map_map]
  congr 1
  cases r.drop <;> rfl

/-! ### Worlds -/

/-- Both have as many worlds. -/
theorem worldCount_mirrors (h : p.store.Mirrors ρ q.store) : q.worldCount = p.worldCount := by
  refine congrArg List.sum
    (map_eq_of_forall₂ (List.forall₂_map_left_iff.1 h) fun package package' hpackage => ?_).symm
  refine congrArg List.sum
    (map_eq_of_forall₂ (List.forall₂_map_left_iff.1 hpackage.2) fun e f hef => ?_)
  change e.2.worlds.entries.length = f.2.worlds.entries.length
  rw [← hef.2.worlds]
  exact (List.length_map _).symm

namespace Renumbers

theorem attachedFunctions (h : p.Renumbers ρ q) (name : String) (id : TypeId) :
    q.attachedFunctions name (ρ id) =
      (p.attachedFunctions name id).map fun x => (x.1, ρ x.2) := by
  rw [Project.attachedFunctions, Project.attachedFunctions, h.node]
  cases p.arena.get? id with
  | none => rfl
  | some node =>
    cases node with
    | resource r => exact resourceFunctions_rename name r
    | _ => rfl

theorem interfaceFunctions (h : p.Renumbers ρ q) (i : Interface) (module : String)
    (direction : Direction) : q.interfaceFunctions (i.rename ρ) module direction =
      (p.interfaceFunctions i module direction).map (WorldFunction.rename ρ) := by
  change (_ ++ (i.rename ρ).definitions.types.entries.flatMap fun e =>
      q.attachedFunctions e.1 e.2).map _ =
    ((_ ++ i.definitions.types.entries.flatMap fun e => p.attachedFunctions e.1 e.2).map _).map _
  simp only [Interface.rename_definitions, DefinitionsOf.rename, Interface.rename_functions,
    NameMap.map, List.flatMap_map, h.attachedFunctions]
  simp [List.map_flatMap, Function.comp_def, NamedFunction.rename, WorldFunction.rename]

theorem itemFunctions (h : p.Renumbers ρ q) (scope : PackageRef) (direction : Direction)
    (item : WorldItem) : q.itemFunctions scope direction (item.rename ρ) =
      (p.itemFunctions scope direction item).map (List.map (WorldFunction.rename ρ)) := by
  obtain ⟨name, kind⟩ := item
  cases kind with
  | function func => rfl
  | interface package target =>
    simp only [WorldItem.rename, Project.itemFunctions, findInterface_mirrors h.store]
    cases p.findInterface package target with
    | error e => rfl
    | ok found =>
      simp only [Except.map, bind, Except.bind, pure, Except.pure, h.interfaceFunctions,
        Interface.moduleName, Interface.rename_name, Interface.rename_package]

/-- A world expands to the same functions. -/
theorem expandWorld (h : p.Renumbers ρ q) (depth : Nat) (visiting : List String) (w : World) :
    q.expandWorld depth visiting (w.rename ρ) =
      (p.expandWorld depth visiting w).map (List.map (WorldFunction.rename ρ)) := by
  induction depth generalizing visiting w with
  | zero => rfl
  | succ depth ih =>
    have hinclude (visiting : List String) (i : IncludeDecl) :
        q.expandInclude depth visiting i =
          (p.expandInclude depth visiting i).map (List.map (WorldFunction.rename ρ)) := by
      rw [expandInclude, expandInclude, worldIn_mirrors h.store]
      cases p.worldIn i.package i.world with
      | error e => rfl
      | ok w => exact ih visiting w
    have hitems (direction : Direction) :
        ((w.rename ρ).items direction).mapM (q.itemFunctions w.scope direction) =
          ((w.items direction).mapM (p.itemFunctions w.scope direction)).map
            (List.map (List.map (WorldFunction.rename ρ))) := by
      rw [show (w.rename ρ).items direction = (w.items direction).map (WorldItem.rename ρ) by
        cases direction <;> rfl]
      exact Except.mapM_map_of (h.itemFunctions w.scope direction) _
    have hincludes (visiting : List String) :
        w.includes.mapM (q.expandInclude depth visiting) =
          (w.includes.mapM (p.expandInclude depth visiting)).map
            (List.map (List.map (WorldFunction.rename ρ))) := by
      have hall := Except.mapM_map_of (e := id) (hinclude visiting) w.includes
      rwa [List.map_id] at hall
    rw [expandWorld_succ, expandWorld_succ]
    change (if w.scope.toText ∈ visiting then _ else _) = _
    split
    · rfl
    · change (do
        let imports ← ((w.rename ρ).items .imported).mapM (q.itemFunctions w.scope .imported)
        let exports ← ((w.rename ρ).items .exported).mapM (q.itemFunctions w.scope .exported)
        let included ← w.includes.mapM (q.expandInclude depth (w.scope.toText :: visiting))
        return imports.flatten ++ exports.flatten ++ included.flatten) = _
      rw [hitems, hitems, hincludes]
      refine Except.bind_map fun imports => Except.bind_map fun exports =>
        Except.bind_map fun included => congrArg Except.ok ?_
      simp only [List.map_append, List.map_flatten]

theorem worldFunctions (h : p.Renumbers ρ q) (reference : String) :
    q.worldFunctions reference =
      (p.worldFunctions reference).map (List.map (WorldFunction.rename ρ)) := by
  rw [Project.worldFunctions, Project.worldFunctions, world_mirrors h.store,
    worldCount_mirrors h.store]
  cases p.world reference with
  | error e => rfl
  | ok w =>
    simp only [Except.map, bind, Except.bind, h.expandWorld]
    cases p.expandWorld (p.worldCount + 1) [] w with
    | error e => rfl
    | ok functions => exact congrArg Except.ok (WorldFunction.distinct_map functions)

theorem findType (h : p.Renumbers ρ q) (reference : String) :
    q.findType reference = (p.findType reference).map ρ := by
  rw [Project.findType, Project.findType, findNamed_mirrors h.store]
  cases p.findNamed reference with
  | error e => rfl
  | ok named =>
    simp only [Except.map, bind, Except.bind, h.resolve]
    cases p.resolve named <;> rfl

end Renumbers

/-- Nothing but the ids of the nodes tells the second project from the first. -/
structure Alike (ρ : TypeId → TypeId) (p q : Project) : Prop where
  /-- Different nodes have different ids. -/
  injective : Function.Injective ρ
  /-- The same references are found. -/
  findType : ∀ reference, q.findType reference = (p.findType reference).map ρ
  /-- What is found is described alike. -/
  describe : ∀ reference id, p.findType reference = .ok id →
    q.abi.describe (ρ id) = p.abi.describe id
  /-- Types flatten alike. -/
  flatten : ∀ id, q.abi.flatten (ρ id) = p.abi.flatten id
  /-- Types are laid out alike. -/
  layout : ∀ id, q.abi.layout (ρ id) = p.abi.layout id
  /-- Worlds have the same functions, in the same order. -/
  worldFunctions : ∀ reference, q.worldFunctions reference =
    (p.worldFunctions reference).map (List.map (WorldFunction.rename ρ))
  /-- Functions have the same signatures. -/
  functionSignature : ∀ id, q.abi.functionSignature (ρ id) =
    (p.abi.functionSignature id).map (Signature.rename ρ)

theorem exists_lookup_of_findType {reference : String} {id : TypeId}
    (h : p.findType reference = .ok id) : ∃ found, p.abi.lookup id = .ok found := by
  obtain ⟨named, -, h⟩ := Except.bind_eq_ok.1 h
  obtain ⟨node, hnode, hshape⟩ := PackageStore.exists_shape_of_resolve (Except.mapError_eq_ok.1 h)
  refine ⟨(id, node), ?_⟩
  change Abi.lookup ⟨p.arena, some p.store⟩ id = _
  rw [Abi.lookup]
  dsimp only
  rw [hnode]
  cases node <;> first | rfl | cases hshape

theorem Renumbers.alike (h : p.Renumbers ρ q) : p.Alike ρ q where
  injective := h.injective
  findType := h.findType
  describe _ _ hid :=
    let ⟨_, hfound⟩ := exists_lookup_of_findType hid
    h.abi.describe hfound
  flatten := h.abi.flatten
  layout := h.abi.layout
  worldFunctions := h.worldFunctions
  functionSignature := h.abi.functionSignature

/-- Groups that declare different names can be loaded in any order. They are accepted in every
order, and nothing but the ids of the nodes depends on it. -/
theorem alike_of_perm {groups groups' : List SourceGroup} (hperm : groups.Perm groups')
    (hapart : groups.Pairwise SourceGroup.Apart) (h : ofGroups groups = .ok p) :
    ∃ ρ q, ofGroups groups' = .ok q ∧ p.Alike ρ q :=
  let ⟨ρ, q, hq, hrenumbers⟩ := exists_renumbers_of_perm hperm hapart h
  ⟨ρ, q, hq, hrenumbers.alike⟩

/-! ### Two directories of one package -/

/-- An interface with a record in it, and a function on it. -/
def shapesItems : List Item :=
  [.interface "shapes" [.record "point" [("x", .name "u32")],
    .func "move" { params := [("p", .name "point")], results := [.name "point"] }]]

/-- A world that imports the interface. -/
def atlasItems : List Item :=
  [.world "atlas" [.importing (.interface "ns:geo/shapes")]]

/-- The two directories, each with one document. -/
def atlasGroups : List SourceGroup :=
  [{ directory := "shapes"
     files := [{ path := "shapes/a.json",
                 document := { package := some "ns:geo", items := shapesItems } }] },
    { directory := "maps"
      files := [{ path := "maps/a.json",
                  document := { package := some "ns:geo", items := atlasItems } }] }]

/-- The package of both. -/
def atlasPackage : PackageRef :=
  { name := { namespaces := ["ns"], path := ["geo"] } }

theorem exists_ofGroups_atlas : ∃ p, ofGroups atlasGroups = .ok p := by
  have hshapes : PackageBlock.Builds ⟨atlasPackage, shapesItems⟩ ⟨atlasPackage, _, _⟩ := ⟨rfl, rfl⟩
  have hatlas : PackageBlock.Builds ⟨atlasPackage, atlasItems⟩ ⟨atlasPackage, _, _⟩ := ⟨rfl, rfl⟩
  exact ⟨_, ofGroups_eq_ok.2 ⟨[[⟨atlasPackage, shapesItems⟩], [⟨atlasPackage, atlasItems⟩]], rfl,
    adds_cons.2 ⟨_, hshapes, adds_cons.2 ⟨_, hatlas, adds_nil.2 rfl⟩⟩⟩⟩

theorem apart_atlas : atlasGroups.Pairwise SourceGroup.Apart := by
  refine List.pairwise_pair.2 fun bs bs' hbs hbs' b hb b' hb' _ => ?_
  obtain rfl : bs = [⟨atlasPackage, shapesItems⟩] := (Except.ok.inj hbs).symm
  obtain rfl : bs' = [⟨atlasPackage, atlasItems⟩] := (Except.ok.inj hbs').symm
  cases List.mem_singleton.1 hb
  cases List.mem_singleton.1 hb'
  exact ⟨List.disjoint_nil_left _, List.disjoint_nil_right _, List.disjoint_nil_left _⟩

theorem alike_of_perm_atlas : ∃ p, ofGroups atlasGroups = .ok p ∧
    ∃ ρ q, ofGroups atlasGroups.reverse = .ok q ∧ p.Alike ρ q :=
  let ⟨p, hp⟩ := exists_ofGroups_atlas
  ⟨p, hp, alike_of_perm (List.reverse_perm _).symm apart_atlas hp⟩

end Project

end ComponentAbi
