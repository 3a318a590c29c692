import ComponentAbi.Project

/-!
# Renaming type ids

The same definitions get other ids when they are loaded at another place. Here every kind of data
with ids in it is renamed by a function on ids. Renaming twice is renaming by the composition.
-/

namespace ComponentAbi

variable {ρ σ : TypeId → TypeId}

/-! ### Maps -/

namespace NameMap

variable {α β γ : Type}

/-- Changes the values. -/
def map (f : α → β) (m : NameMap α) : NameMap β :=
  ⟨m.entries.map fun e => (e.1, f e.2)⟩

theorem map_map (g : β → γ) (f : α → β) (m : NameMap α) : (m.map f).map g = m.map (g ∘ f) := by
  simp [map]

theorem map_insert (f : α → β) (m : NameMap α) (name : String) (value : α) :
    (m.insert name value).map f = (m.map f).insert name (f value) := by
  obtain ⟨entries⟩ := m
  simp only [insert, map, mk.injEq]
  induction entries with
  | nil => rfl
  | cons entry rest ih =>
    obtain ⟨other, old⟩ := entry
    simp only [insertEntry, List.map_cons]
    split
    · rfl
    · split
      · rfl
      · rw [List.map_cons, ih]

theorem map_foldl_insert {ι : Type} (f : α → β) (key : ι → String) (value : ι → α)
    (items : List ι) (m : NameMap α) :
    (items.foldl (fun acc x => acc.insert (key x) (value x)) m).map f =
      items.foldl (fun acc x => acc.insert (key x) (f (value x))) (m.map f) := by
  induction items generalizing m with
  | nil => rfl
  | cons x rest ih => rw [List.foldl_cons, List.foldl_cons, ih, map_insert]

theorem map_merge (f : α → β) (m later : NameMap α) :
    (m.merge later).map f = (m.map f).merge (later.map f) := by
  rw [merge, map_foldl_insert f Prod.fst Prod.snd later.entries m]
  simp only [merge, map, List.foldl_map]

theorem find?_map (f : α → β) (m : NameMap α) (name : String) :
    (m.map f).find? name = (m.find? name).map f := by
  obtain ⟨entries⟩ := m
  simp only [find?, map]
  induction entries with
  | nil => rfl
  | cons entry rest ih =>
    rw [List.map_cons, List.lookup_cons, List.lookup_cons]
    split
    · rfl
    · exact ih

end NameMap

/-! ### Nodes -/

/-- The function with its node renamed. -/
def NamedFunction.rename (ρ : TypeId → TypeId) (f : NamedFunction) : NamedFunction :=
  { f with func := ρ f.func }

/-- The function type with all ids renamed. -/
def FunctionType.rename (ρ : TypeId → TypeId) (f : FunctionType) : FunctionType where
  params := f.params.map fun x => (x.1, ρ x.2)
  results := f.results.map ρ

/-- The resource with all its functions renamed. -/
def ResourceType.rename (ρ : TypeId → TypeId) (r : ResourceType) : ResourceType where
  name := r.name
  constructors := r.constructors.map (NamedFunction.rename ρ)
  methods := r.methods.map (NamedFunction.rename ρ)
  statics := r.statics.map (NamedFunction.rename ρ)
  drop := r.drop.map ρ

/-- The node with all ids renamed. -/
def TypeNode.rename (ρ : TypeId → TypeId) : TypeNode → TypeNode
  | .list element => .list (ρ element)
  | .tuple elements => .tuple (elements.map ρ)
  | .option payload => .option (ρ payload)
  | .result ok err => .result (ok.map ρ) (err.map ρ)
  | .record name fields => .record name (fields.map fun x => (x.1, ρ x.2))
  | .variant name cases => .variant name (cases.map fun x => (x.1, x.2.map ρ))
  | .resource r => .resource (r.rename ρ)
  | .borrow id => .borrow (ρ id)
  | .function type => .function (type.rename ρ)
  | .stream element => .stream (element.map ρ)
  | .future value => .future (value.map ρ)
  | node => node

theorem FunctionType.rename_rename (f : FunctionType) :
    (f.rename σ).rename ρ = f.rename (ρ ∘ σ) := by
  simp [rename]

theorem ResourceType.rename_rename (r : ResourceType) :
    (r.rename σ).rename ρ = r.rename (ρ ∘ σ) := by
  simp [rename, Function.comp_def, NamedFunction.rename]

theorem TypeNode.rename_rename (node : TypeNode) :
    (node.rename σ).rename ρ = node.rename (ρ ∘ σ) := by
  cases node <;> simp [rename, ResourceType.rename_rename, FunctionType.rename_rename]

theorem TypeNode.rename_of_ofKeyword? {keyword : String} {node : TypeNode}
    (h : ofKeyword? keyword = some node) : node.rename ρ = node := by
  rw [ofKeyword?] at h
  split at h
  · cases h
    rfl
  · obtain ⟨s, -, rfl⟩ := Option.map_eq_some_iff.1 h
    rfl

/-! ### Definitions -/

/-- The used name with its node renamed. -/
def UseName.rename (ρ : TypeId → TypeId) (n : UseName) : UseName :=
  { n with type := ρ n.type }

/-- The `use` declaration with its nodes renamed. -/
def UseDecl.rename (ρ : TypeId → TypeId) (d : UseDecl) : UseDecl :=
  { d with names := d.names.map (UseName.rename ρ) }

theorem UseDecl.rename_rename (d : UseDecl) : (d.rename σ).rename ρ = d.rename (ρ ∘ σ) := by
  simp [rename, Function.comp_def, UseName.rename]

mutual

/-- The interface with all ids renamed, those of nested interfaces as well. -/
def Interface.rename (ρ : TypeId → TypeId) : Interface → Interface
  | ⟨name, package, ⟨types, ⟨interfaces⟩, uses⟩, functions, type⟩ =>
    { name
      package
      definitions :=
        { types := types.map ρ
          interfaces := ⟨renameAll ρ interfaces⟩
          uses := uses.map (UseDecl.rename ρ) }
      functions := functions.map (NamedFunction.rename ρ)
      type := ρ type }
termination_by structural i => i

/-- `Interface.rename` on all values. -/
def Interface.renameAll (ρ : TypeId → TypeId) :
    List (String × Interface) → List (String × Interface)
  | [] => []
  | (name, i) :: rest => (name, i.rename ρ) :: renameAll ρ rest
termination_by structural entries => entries

end

/-- The definitions with all ids renamed. -/
def DefinitionsOf.rename (ρ : TypeId → TypeId) (d : Definitions) : Definitions where
  types := d.types.map ρ
  interfaces := d.interfaces.map (Interface.rename ρ)
  uses := d.uses.map (UseDecl.rename ρ)

theorem Interface.renameAll_eq (entries : List (String × Interface)) :
    renameAll ρ entries = entries.map fun e => (e.1, e.2.rename ρ) := by
  induction entries with
  | nil => rfl
  | cons entry rest ih =>
    rw [renameAll, ih]
    rfl

theorem Interface.rename_eq (i : Interface) :
    i.rename ρ = { i with
      definitions := i.definitions.rename ρ
      functions := i.functions.map (NamedFunction.rename ρ)
      type := ρ i.type } := by
  obtain ⟨name, package, ⟨types, ⟨interfaces⟩, uses⟩, functions, type⟩ := i
  rw [rename, renameAll_eq]
  rfl

@[simp] theorem Interface.rename_name (i : Interface) : (i.rename ρ).name = i.name := by
  rw [rename_eq]

@[simp] theorem Interface.rename_package (i : Interface) : (i.rename ρ).package = i.package := by
  rw [rename_eq]

@[simp] theorem Interface.rename_definitions (i : Interface) :
    (i.rename ρ).definitions = i.definitions.rename ρ := by
  rw [rename_eq]

@[simp] theorem Interface.rename_functions (i : Interface) :
    (i.rename ρ).functions = i.functions.map (NamedFunction.rename ρ) := by
  rw [rename_eq]

mutual

theorem Interface.rename_rename : ∀ i : Interface, (i.rename σ).rename ρ = i.rename (ρ ∘ σ)
  | ⟨name, package, ⟨types, ⟨interfaces⟩, uses⟩, functions, type⟩ => by
    simp only [rename, renameAll_renameAll interfaces, NameMap.map_map]
    simp [Function.comp_def, NamedFunction.rename, UseDecl.rename_rename]
termination_by structural i => i

theorem Interface.renameAll_renameAll :
    ∀ entries, renameAll ρ (renameAll σ entries) = renameAll (ρ ∘ σ) entries
  | [] => rfl
  | (name, i) :: rest => by
    simp only [renameAll, rename_rename i, renameAll_renameAll rest]
termination_by structural entries => entries

end

theorem DefinitionsOf.rename_rename (d : Definitions) :
    (d.rename σ).rename ρ = d.rename (ρ ∘ σ) := by
  simp only [rename, NameMap.map_map, List.map_map]
  simp only [Function.comp_def, Interface.rename_rename, UseDecl.rename_rename]

/-! ### Worlds and packages -/

/-- The item with its function renamed, if it is one. -/
def WorldItem.rename (ρ : TypeId → TypeId) (item : WorldItem) : WorldItem :=
  { item with
    kind := match item.kind with
      | .function type => .function (ρ type)
      | .interface package name => .interface package name }

/-- The world with all ids renamed. -/
def World.rename (ρ : TypeId → TypeId) (w : World) : World :=
  { w with
    definitions := w.definitions.rename ρ
    imports := w.imports.map (WorldItem.rename ρ)
    exports := w.exports.map (WorldItem.rename ρ)
    type := ρ w.type }

/-- The contents with all ids renamed. -/
def PackageContents.rename (ρ : TypeId → TypeId) (c : PackageContents) : PackageContents where
  worlds := c.worlds.map (World.rename ρ)
  definitions := c.definitions.rename ρ

theorem WorldItem.rename_rename (item : WorldItem) :
    (item.rename σ).rename ρ = item.rename (ρ ∘ σ) := by
  obtain ⟨name, kind⟩ := item
  cases kind <;> rfl

theorem World.rename_rename (w : World) : (w.rename σ).rename ρ = w.rename (ρ ∘ σ) := by
  simp only [rename, DefinitionsOf.rename_rename, List.map_map]
  simp only [Function.comp_def, WorldItem.rename_rename]

theorem PackageContents.rename_rename (c : PackageContents) :
    (c.rename σ).rename ρ = c.rename (ρ ∘ σ) := by
  simp only [rename, DefinitionsOf.rename_rename, NameMap.map_map]
  simp only [Function.comp_def, World.rename_rename]

theorem PackageContents.rename_merge (c later : PackageContents) :
    (c.merge later).rename ρ = (c.rename ρ).merge (later.rename ρ) := by
  simp [rename, merge, DefinitionsOf.merge, DefinitionsOf.rename, NameMap.map_merge]

end ComponentAbi
