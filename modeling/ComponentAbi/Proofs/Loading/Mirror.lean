import ComponentAbi.Loader
import ComponentAbi.Proofs.Renaming

/-!
# Loading at another place

A loading step does above any project what it does from the start, with its ids counted from there
(`LoadM.Mirrors`).
-/

namespace ComponentAbi

/-- The id counted from `start`. -/
def TypeId.shift (start : Nat) (id : TypeId) : TypeId :=
  ⟨start + id.index⟩

namespace Project

/-- The project with the nodes of an arena added, which are renamed. -/
def above (base : Project) (ρ : TypeId → TypeId) (part : TypeArena) : Project :=
  { base with arena := ⟨base.arena.nodes ++ part.nodes.map (TypeNode.rename ρ)⟩ }

theorem above_empty (p : Project) (ρ : TypeId → TypeId) : p.above ρ {} = p := by
  simp [above]

end Project

namespace LoadM

variable {α β γ : Type} {n : Nat} {base : Project} {ρ : TypeId → TypeId}

/-- `x` does above `base` what `y` does alone, with ids renamed by `ρ` and answers by `r`, if there
are `n` nodes or more. All that is known about `ρ` is where it puts the nodes that are there. -/
def Mirrors (n : Nat) (base : Project) (ρ : TypeId → TypeId) (x y : LoadM α) (r : α → α) : Prop :=
  ∀ part : Project, n ≤ part.arena.size →
    part.arena.size ≤ (y.run.run part).2.arena.size ∧
    ((∀ i < (y.run.run part).2.arena.size, ρ ⟨i⟩ = ⟨base.arena.size + i⟩) →
      x.run.run (base.above ρ part.arena) =
        ((y.run.run part).1.map r, base.above ρ (y.run.run part).2.arena))

theorem mirrors_pure {r : α → α} {a b : α} (h : b = r a) :
    Mirrors n base ρ (pure b) (pure a) r := by
  subst h
  exact fun _ _ => ⟨Nat.le_refl _, fun _ => rfl⟩

theorem mirrors_throw {r : α → α} (e : LoadError) : Mirrors n base ρ (throw e) (throw e) r :=
  fun _ _ => ⟨Nat.le_refl _, fun _ => rfl⟩

theorem run_bind (z : LoadM α) (k : α → LoadM β) (p : Project) : (z >>= k).run.run p =
    match z.run.run p with
    | (.ok a, q) => (k a).run.run q
    | (.error e, q) => (.error e, q) := by
  simp only [Bind.bind, ExceptT.bind, ExceptT.mk, ExceptT.run, StateT.run, StateT.bind,
    ExceptT.bindCont]
  obtain ⟨answer, q⟩ := z p
  cases answer <;> rfl

theorem Mirrors.bind {x y : LoadM α} {r : α → α} {f g : α → LoadM β} {r' : β → β}
    (h : Mirrors n base ρ x y r) (hrest : ∀ a, Mirrors n base ρ (f (r a)) (g a) r') :
    Mirrors n base ρ (x >>= f) (y >>= g) r' := by
  intro part hn
  obtain ⟨hle, hx⟩ := h part hn
  rw [run_bind, run_bind]
  cases hy : y.run.run part with | mk answer mid
  rw [hy] at hle hx
  cases answer with
  | error e =>
    refine ⟨hle, fun hρ => ?_⟩
    rw [hx hρ]
    rfl
  | ok a =>
    obtain ⟨hle', hf⟩ := hrest a mid (Nat.le_trans hn hle)
    refine ⟨Nat.le_trans hle hle', fun hρ => ?_⟩
    rw [hx fun i hi => hρ i (Nat.lt_of_lt_of_le hi hle')]
    exact hf hρ

/-- What is read from the documents is the same at both places. -/
theorem mirrors_bind_liftM {x : Except LoadError α} {f g : α → LoadM β} {r : β → β}
    (hrest : ∀ a, Mirrors n base ρ (f a) (g a) r) :
    Mirrors n base ρ ((liftM x : LoadM α) >>= f) ((liftM x : LoadM α) >>= g) r := by
  have hx : Mirrors n base ρ (liftM x : LoadM α) (liftM x) id := by
    refine fun _ _ => ⟨Nat.le_refl _, fun _ => ?_⟩
    cases x <;> rfl
  exact hx.bind hrest

theorem run_alloc (node : TypeNode) (p : Project) :
    (alloc node).run.run p = (.ok ⟨p.arena.size⟩, { p with arena := ⟨p.arena.nodes.push node⟩ }) :=
  rfl

/-- The new node is there for what follows. -/
theorem mirrors_bind_alloc {node node' : TypeNode} (h : node' = node.rename ρ)
    {f g : TypeId → LoadM β} {r : β → β}
    (hrest : ∀ id : TypeId, n ≤ id.index → Mirrors (id.index + 1) base ρ (f (ρ id)) (g id) r) :
    Mirrors n base ρ (alloc node' >>= f) (alloc node >>= g) r := by
  intro part hn
  rw [run_bind, run_bind, run_alloc, run_alloc]
  have hsize : part.arena.size + 1 = (part.arena.alloc node).2.size := by
    simp [TypeArena.alloc, TypeArena.size]
  obtain ⟨hle, hf⟩ := hrest ⟨part.arena.size⟩ hn
    { part with arena := ⟨part.arena.nodes.push node⟩ } (Nat.le_of_eq hsize)
  have hlt := Nat.lt_of_lt_of_le (Nat.lt_of_lt_of_eq (Nat.lt_succ_self _) hsize) hle
  refine ⟨Nat.le_of_lt hlt, fun hρ => ?_⟩
  have hrun := hf hρ
  rw [hρ part.arena.size hlt] at hrun
  simpa [h, Project.above, TypeArena.size] using hrun

theorem mirrors_alloc {node node' : TypeNode} (h : node' = node.rename ρ) :
    Mirrors n base ρ (alloc node') (alloc node) ρ := by
  simpa using mirrors_bind_alloc h fun id _ => mirrors_pure rfl

theorem mirrors_replace {node node' : TypeNode} {id : TypeId} (hid : id.index < n)
    (h : node' = node.rename ρ) :
    Mirrors n base ρ (replace (ρ id) node') (replace id node) fun u => u := by
  intro part hn
  have hrun (id : TypeId) (node : TypeNode) (p : Project) : (replace id node).run.run p =
    (.ok (), { p with arena := ⟨p.arena.nodes.setIfInBounds id.index node⟩ }) := rfl
  have hsize : part.arena.size = TypeArena.size ⟨part.arena.nodes.setIfInBounds id.index node⟩ := by
    simp [TypeArena.size]
  rw [hrun, hrun]
  refine ⟨Nat.le_of_eq hsize, fun hρ => ?_⟩
  have hplace := hρ id.index (Nat.lt_of_lt_of_le hid (Nat.le_trans hn (Nat.le_of_eq hsize)))
  have hset : (base.arena.nodes ++ part.arena.nodes.map (TypeNode.rename ρ)).setIfInBounds
      (base.arena.nodes.size + id.index) (node.rename ρ) =
      base.arena.nodes ++
        (part.arena.nodes.setIfInBounds id.index node).map (TypeNode.rename ρ) := by
    simp [Array.setIfInBounds_append_right]
  subst h
  rw [hplace]
  simp [Project.above, TypeArena.size, hset, Except.map]

variable {ι : Type}

theorem mirrors_mapM {f g : ι → LoadM α} {r : α → α} (h : ∀ x, Mirrors n base ρ (f x) (g x) r)
    (xs : List ι) : Mirrors n base ρ (xs.mapM f) (xs.mapM g) (List.map r) := by
  induction xs with
  | nil => exact mirrors_pure rfl
  | cons x rest ih =>
    rw [List.mapM_cons, List.mapM_cons]
    exact (h x).bind fun a => ih.bind fun as => mirrors_pure rfl

theorem mirrors_foldlM {f g : α → ι → LoadM α} {r : α → α}
    (h : ∀ a x, Mirrors n base ρ (f (r a) x) (g a x) r) (a : α) (xs : List ι) :
    Mirrors n base ρ (xs.foldlM f (r a)) (xs.foldlM g a) r := by
  induction xs generalizing a with
  | nil => exact mirrors_pure rfl
  | cons x rest ih =>
    rw [List.foldlM_cons, List.foldlM_cons]
    exact (h a x).bind fun b => ih b

/-! ### Types -/

theorem mirrors_namedType (scope : PackageRef) (name : String) :
    Mirrors n base ρ (namedType scope name) (namedType scope name) ρ := by
  unfold namedType
  cases hkeyword : TypeNode.ofKeyword? name with
  | some node => exact mirrors_alloc (TypeNode.rename_of_ofKeyword? hkeyword).symm
  | none =>
    by_cases hresult : name = "result"
    · simp only [if_pos hresult]
      exact mirrors_alloc rfl
    · simp only [if_neg hresult]
      exact mirrors_bind_liftM fun _ => mirrors_alloc rfl

mutual

theorem mirrors_typeExpr (n : Nat) (scope : PackageRef) :
    ∀ e, Mirrors n base ρ (typeExpr scope e) (typeExpr scope e) ρ
  | .name text =>
    mirrors_namedType scope text
  | .list element =>
    (mirrors_typeExpr n scope element).bind fun _ => mirrors_alloc rfl
  | .option payload =>
    (mirrors_typeExpr n scope payload).bind fun _ => mirrors_alloc rfl
  | .tuple elements =>
    (mirrors_typeExprs n scope elements).bind fun _ => mirrors_alloc rfl
  | .result ok err =>
    (mirrors_optionalType n scope ok).bind fun _ =>
      (mirrors_optionalType n scope err).bind fun _ => mirrors_alloc rfl
  | .borrow resource =>
    (mirrors_namedType scope resource).bind fun _ => mirrors_alloc rfl
  | .own resource =>
    mirrors_namedType scope resource
  | .stream element =>
    (mirrors_optionalType n scope element).bind fun _ => mirrors_alloc rfl
  | .future value =>
    (mirrors_optionalType n scope value).bind fun _ => mirrors_alloc rfl
  | .func ⟨params, results⟩ =>
    (mirrors_namedTypes n scope params).bind fun _ =>
      (mirrors_typeExprs n scope results).bind fun _ => mirrors_alloc rfl
  | .interface _ =>
    mirrors_bind_liftM fun _ => mirrors_alloc rfl
termination_by structural e => e

theorem mirrors_typeExprs (n : Nat) (scope : PackageRef) :
    ∀ es, Mirrors n base ρ (typeExprs scope es) (typeExprs scope es) (List.map ρ)
  | [] =>
    mirrors_pure rfl
  | e :: rest =>
    (mirrors_typeExpr n scope e).bind fun _ =>
      (mirrors_typeExprs n scope rest).bind fun _ => mirrors_pure rfl
termination_by structural es => es

theorem mirrors_namedTypes (n : Nat) (scope : PackageRef) :
    ∀ fields, Mirrors n base ρ (namedTypes scope fields) (namedTypes scope fields)
      (List.map fun x => (x.1, ρ x.2))
  | [] =>
    mirrors_pure rfl
  | (_, e) :: rest =>
    (mirrors_typeExpr n scope e).bind fun _ =>
      (mirrors_namedTypes n scope rest).bind fun _ => mirrors_pure rfl
termination_by structural fields => fields

theorem mirrors_optionalType (n : Nat) (scope : PackageRef) :
    ∀ e, Mirrors n base ρ (optionalType scope e) (optionalType scope e) (Option.map ρ)
  | none =>
    mirrors_pure rfl
  | some e =>
    (mirrors_typeExpr n scope e).bind fun _ => mirrors_pure rfl
termination_by structural e => e

end

/-! ### Functions and resources -/

variable {scope : PackageRef}

theorem mirrors_functionType (decl : FunctionDecl) :
    Mirrors n base ρ (functionType scope decl) (functionType scope decl) (FunctionType.rename ρ) :=
  (mirrors_namedTypes n scope decl.params).bind fun _ =>
    (mirrors_typeExprs n scope decl.results).bind fun _ => mirrors_pure rfl

theorem mirrors_function (decl : FunctionDecl) :
    Mirrors n base ρ (function scope decl) (function scope decl) ρ :=
  (mirrors_functionType decl).bind fun _ => mirrors_alloc rfl

theorem mirrors_namedFunction (name : String) (decl : FunctionDecl) :
    Mirrors n base ρ (namedFunction scope name decl) (namedFunction scope name decl)
      (NamedFunction.rename ρ) :=
  (mirrors_function decl).bind fun _ => mirrors_pure rfl

theorem mirrors_resource (name : String) (constructor : Option FunctionDecl)
    (methods statics : List (String × FunctionDecl)) :
    Mirrors n base ρ (resource scope name constructor methods statics)
      (resource scope name constructor methods statics) ρ := by
  unfold resource
  refine mirrors_bind_alloc rfl fun id hid => mirrors_bind_alloc rfl fun borrowed hborrowed => ?_
  refine Mirrors.bind (r := List.map (NamedFunction.rename ρ)) (mirrors_mapM (fun decl => ?_) _)
    fun constructors => ?_
  · exact (mirrors_functionType decl).bind fun f =>
      (mirrors_alloc rfl).bind fun _ => mirrors_pure rfl
  refine Mirrors.bind (r := List.map (NamedFunction.rename ρ)) (mirrors_mapM (fun decl => ?_) _)
    fun methods => ?_
  · exact (mirrors_functionType decl.2).bind fun f =>
      (mirrors_alloc rfl).bind fun _ => mirrors_pure rfl
  refine Mirrors.bind (r := List.map (NamedFunction.rename ρ)) (mirrors_mapM (fun decl => ?_) _)
    fun statics => (mirrors_alloc rfl).bind fun drop => ?_
  · exact mirrors_namedFunction decl.1 decl.2
  · refine Mirrors.bind (r := fun u => u) ?_ fun _ => mirrors_pure rfl
    exact mirrors_replace (by omega) rfl

/-! ### Items -/

theorem mirrors_use (source : String) (names : List (String × Option String)) (d : Definitions) :
    Mirrors n base ρ (use scope source names (d.rename ρ)) (use scope source names d)
      (DefinitionsOf.rename ρ) := by
  unfold use
  refine mirrors_bind_liftM fun origin => ?_
  refine Mirrors.bind (r := List.map (UseName.rename ρ)) (mirrors_mapM (fun name => ?_) _)
    fun bound => mirrors_pure ?_
  · exact (mirrors_alloc rfl).bind fun _ => mirrors_pure rfl
  · simp [DefinitionsOf.rename, NameMap.map_foldl_insert, List.foldl_map, UseName.rename,
      UseDecl.rename]

theorem mirrors_definition (context : String) (d : Definitions) (item : Item) :
    Mirrors n base ρ (definition scope context (d.rename ρ) item) (definition scope context d item)
      (DefinitionsOf.rename ρ) := by
  have hadd (name : String) (id : TypeId) :
      { d.rename ρ with types := (d.rename ρ).types.insert name (ρ id) } =
        DefinitionsOf.rename ρ { d with types := d.types.insert name id } := by
    simp [DefinitionsOf.rename, NameMap.map_insert]
  unfold definition
  cases item with
  | record name fields =>
    exact (mirrors_namedTypes n scope fields).bind fun _ =>
      (mirrors_alloc rfl).bind fun id => mirrors_pure (hadd name id)
  | variant name cases =>
    refine Mirrors.bind (r := List.map fun x => (x.1, x.2.map ρ)) (mirrors_mapM (fun c => ?_) _)
      fun _ => ?_
    · exact (mirrors_optionalType n scope c.2).bind fun _ => mirrors_pure rfl
    · exact (mirrors_alloc rfl).bind fun id => mirrors_pure (hadd name id)
  | enum name cases => exact (mirrors_alloc rfl).bind fun id => mirrors_pure (hadd name id)
  | flags name labels => exact (mirrors_alloc rfl).bind fun id => mirrors_pure (hadd name id)
  | resource name constructor methods statics =>
    exact (mirrors_resource name constructor methods statics).bind fun id =>
      mirrors_pure (hadd name id)
  | type name type =>
    exact (mirrors_typeExpr n scope type).bind fun id => mirrors_pure (hadd name id)
  | use source names => exact mirrors_use source names d
  | interface | world | func | importing | exporting | including => exact mirrors_throw _

/-- The definitions and functions of an interface, renamed. -/
def renameParts (ρ : TypeId → TypeId) (parts : Definitions × List NamedFunction) :
    Definitions × List NamedFunction :=
  (parts.1.rename ρ, parts.2.map (NamedFunction.rename ρ))

theorem mirrors_interfaceItem (context : String) (parts : Definitions × List NamedFunction)
    (item : Item) :
    Mirrors n base ρ (interfaceItem scope context (renameParts ρ parts) item)
      (interfaceItem scope context parts item) (renameParts ρ) := by
  unfold interfaceItem
  cases item with
  | func name decl =>
    exact (mirrors_namedFunction name decl).bind fun f =>
      mirrors_pure (by simp [renameParts])
  | _ => exact (mirrors_definition context parts.1 _).bind fun _ => mirrors_pure rfl

theorem mirrors_interface (package : PackageRef) (name : String) (items : List Item) :
    Mirrors n base ρ (interface package name items) (interface package name items)
      (Interface.rename ρ) := by
  unfold interface
  refine Mirrors.bind (r := renameParts ρ) ?_ fun parts => ?_
  · exact mirrors_foldlM (mirrors_interfaceItem _) ({}, []) items
  · exact (mirrors_alloc rfl).bind fun type => mirrors_pure (by rw [Interface.rename_eq])

theorem mirrors_worldItem (package scope : PackageRef) (d : Definitions) (target : WorldItemDecl) :
    Mirrors n base ρ (worldItem package scope (d.rename ρ) target)
      (worldItem package scope d target)
      fun parts => (parts.1.rename ρ, parts.2.rename ρ) := by
  unfold worldItem
  cases target with
  | function name decl =>
    exact (mirrors_function decl).bind fun _ => mirrors_pure rfl
  | inline name items =>
    exact (mirrors_interface scope name items).bind fun i =>
      mirrors_pure (by simp [DefinitionsOf.rename, NameMap.map_insert, WorldItem.rename])
  | interface reference => exact mirrors_bind_liftM fun _ => mirrors_pure rfl

/-- The parts of a world, renamed. -/
def WorldParts.rename (ρ : TypeId → TypeId) (w : WorldParts) : WorldParts where
  definitions := w.definitions.rename ρ
  imports := w.imports.map (WorldItem.rename ρ)
  exports := w.exports.map (WorldItem.rename ρ)
  includes := w.includes

theorem mirrors_worldPart (package scope : PackageRef) (context : String) (w : WorldParts)
    (item : Item) :
    Mirrors n base ρ (worldPart package scope context (w.rename ρ) item)
      (worldPart package scope context w item) (WorldParts.rename ρ) := by
  unfold worldPart
  cases item with
  | importing target | exporting target =>
    exact (mirrors_worldItem package scope w.definitions target).bind fun _ =>
      mirrors_pure (by simp [WorldParts.rename])
  | including reference => exact mirrors_bind_liftM fun _ => mirrors_pure rfl
  | _ => exact (mirrors_definition context w.definitions _).bind fun _ => mirrors_pure rfl

theorem mirrors_world (package : PackageRef) (name : String) (items : List Item) :
    Mirrors n base ρ (world package name items) (world package name items) (World.rename ρ) := by
  unfold world
  refine Mirrors.bind (r := WorldParts.rename ρ) ?_ fun w => ?_
  · exact mirrors_foldlM (mirrors_worldPart package _ _) {} items
  · exact (mirrors_alloc rfl).bind fun type => mirrors_pure rfl

theorem mirrors_packageItem (package : PackageRef) (context : String) (c : PackageContents)
    (item : Item) :
    Mirrors n base ρ (packageItem package context (c.rename ρ) item)
      (packageItem package context c item) (PackageContents.rename ρ) := by
  unfold packageItem
  cases item with
  | interface name items =>
    exact (mirrors_interface package name items).bind fun i =>
      mirrors_pure (by simp [PackageContents.rename, DefinitionsOf.rename, NameMap.map_insert])
  | world name items =>
    exact (mirrors_world package name items).bind fun i =>
      mirrors_pure (by simp [PackageContents.rename, NameMap.map_insert])
  | _ => exact (mirrors_definition context c.definitions _).bind fun _ => mirrors_pure rfl

theorem mirrors_packageItems (package : PackageRef) (items : List Item) :
    Mirrors n base ρ (packageItems package items) (packageItems package items)
      (PackageContents.rename ρ) :=
  mirrors_foldlM (mirrors_packageItem package _) {} items

end LoadM

end ComponentAbi
