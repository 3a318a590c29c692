import ComponentAbi.Proofs.LoadOrder.Stores
import ComponentAbi.Proofs.Worlds.Declared

/-!
# Blocks that declare different names

The contents that items become have the names that the items declare, in order
(`PackageContents.DeclaredBy`). So blocks without a common name become contents without one
(`PackageBlock.Apart.disjoint`).
-/

namespace ComponentAbi

namespace Item

/-- The interface that an item declares in its package. -/
def interfaceNames : Item → List String
  | interface name _ => [name]
  | _ => []

/-- The world that an item declares in its package. -/
def worldNames : Item → List String
  | world name _ => [name]
  | _ => []

end Item

/-- No name of a type, interface or world is declared in both. -/
structure PackageBlock.Apart (b b' : PackageBlock) : Prop where
  /-- No name of a type is. -/
  types : (b.items.flatMap Item.typeNames).Disjoint (b'.items.flatMap Item.typeNames)
  /-- No name of an interface is. -/
  interfaces : (b.items.flatMap Item.interfaceNames).Disjoint
    (b'.items.flatMap Item.interfaceNames)
  /-- No name of a world is. -/
  worlds : (b.items.flatMap Item.worldNames).Disjoint (b'.items.flatMap Item.worldNames)

theorem PackageBlock.Apart.symm {b b' : PackageBlock} (h : b.Apart b') : b'.Apart b where
  types := List.disjoint_symm h.types
  interfaces := List.disjoint_symm h.interfaces
  worlds := List.disjoint_symm h.worlds

/-- No name of one package version is declared in blocks of both lists. -/
def PackageBlock.AllApart (bs bs' : List PackageBlock) : Prop :=
  ∀ b ∈ bs, ∀ b' ∈ bs', b.package.same b'.package → b.Apart b'

theorem PackageBlock.AllApart.symm {bs bs' : List PackageBlock} (h : AllApart bs bs') :
    AllApart bs' bs := by
  intro b hb b' hb' hsame
  obtain ⟨hname, hversion⟩ := PackageRef.same_iff.1 hsame
  exact (h b' hb' b hb
    (PackageRef.same_iff.2 ⟨hname.symm, Std.OrientedCmp.eq_symm hversion⟩)).symm

/-- No type, interface or world of one package version is declared in both groups. -/
def SourceGroup.Apart (g g' : SourceGroup) : Prop :=
  ∀ bs bs', g.blocks = .ok bs → g'.blocks = .ok bs' → PackageBlock.AllApart bs bs'

/-- All names of the contents are declared by the items, and all are in order. -/
structure PackageContents.DeclaredBy (c : PackageContents) (items : List Item) : Prop where
  /-- The names are in order. -/
  sorted : c.Sorted
  /-- The types are declared. -/
  types : ∀ name, c.definitions.types.HasKey name → name ∈ items.flatMap Item.typeNames
  /-- The interfaces are declared. -/
  interfaces : ∀ name, c.definitions.interfaces.HasKey name →
    name ∈ items.flatMap Item.interfaceNames
  /-- The worlds are declared. -/
  worlds : ∀ name, c.worlds.HasKey name → name ∈ items.flatMap Item.worldNames

namespace PackageContents

theorem declaredBy_nil : DeclaredBy {} [] where
  sorted := ⟨.nil, .nil, .nil⟩
  types := fun _ ⟨_, h⟩ => absurd h List.not_mem_nil
  interfaces := fun _ ⟨_, h⟩ => absurd h List.not_mem_nil
  worlds := fun _ ⟨_, h⟩ => absurd h List.not_mem_nil

theorem DeclaredBy.concat {c : PackageContents} {items : List Item} (h : c.DeclaredBy items)
    (item : Item) : c.DeclaredBy (items ++ [item]) := by
  have hsub (f : Item → List String) {name : String} (hname : name ∈ items.flatMap f) :
      name ∈ (items ++ [item]).flatMap f := by
    rw [List.flatMap_append]
    exact List.mem_append_left _ hname
  exact ⟨h.sorted, fun name hname => hsub _ (h.types name hname),
    fun name hname => hsub _ (h.interfaces name hname),
    fun name hname => hsub _ (h.worlds name hname)⟩

/-- Contents that are declared by the same items with different names have no name in common. -/
theorem DeclaredBy.disjoint {b b' : PackageBlock} {c c' : PackageContents}
    (h : c.DeclaredBy b.items) (h' : c'.DeclaredBy b'.items) (hbb' : b.Apart b') :
    c.Disjoint c' where
  types name hname hname' := hbb'.types (h.types name hname) (h'.types name hname')
  interfaces name hname hname' :=
    hbb'.interfaces (h.interfaces name hname) (h'.interfaces name hname')
  worlds name hname hname' := hbb'.worlds (h.worlds name hname) (h'.worlds name hname')

end PackageContents

namespace LoadM

variable {p q : Project} {package : PackageRef} {done : List Item} {item : Item}
  {c c' : PackageContents}

theorem mem_flatMap_concat {f : Item → List String} {name : String} (h : name ∈ f item) :
    name ∈ (done ++ [item]).flatMap f :=
  List.mem_flatMap.2 ⟨item, List.mem_append_right _ List.mem_cons_self, h⟩

theorem declaredBy_packageItem {context : String} (hc : c.DeclaredBy done)
    (h : (packageItem package context c item).Gives p c' q) : c'.DeclaredBy (done ++ [item]) := by
  have hold := hc.concat item
  have hother (h : (do
      let d ← definition package context c.definitions item
      return { c with definitions := d } : LoadM PackageContents).Gives p c' q) :
      c'.DeclaredBy (done ++ [item]) := by
    obtain ⟨d, mid, hd, h⟩ := gives_bind.1 h
    obtain ⟨rfl, rfl⟩ := gives_pure.1 h
    obtain ⟨-, bound, ⟨hbound, -⟩, htypes, hinterfaces⟩ := gives_definition hd
    refine ⟨⟨hold.sorted.worlds, ?_, ?_⟩, fun name hname => ?_, ?_, hold.worlds⟩
    · rw [htypes]
      exact hold.sorted.types.merge
    · rw [hinterfaces]
      exact hold.sorted.interfaces
    · rw [htypes] at hname
      obtain ⟨id, hid⟩ := hname
      rcases NameMap.mem_merge hid with hid | hid
      · refine mem_flatMap_concat ?_
        rw [← hbound]
        exact List.mem_map_of_mem hid
      · exact hold.types name ⟨id, hid⟩
    · rw [hinterfaces]
      exact hold.interfaces
  unfold packageItem at h
  cases item with
  | interface name its =>
    obtain ⟨i, mid, hi, h⟩ := gives_bind.1 h
    obtain ⟨rfl, rfl⟩ := gives_pure.1 h
    refine ⟨⟨hold.sorted.worlds, hold.sorted.types, hold.sorted.interfaces.insert⟩, hold.types,
      fun key hkey => ?_, hold.worlds⟩
    obtain ⟨value, hvalue⟩ := hkey
    rcases NameMap.mem_insert hvalue with heq | hvalue
    · cases heq
      exact mem_flatMap_concat List.mem_cons_self
    · exact hold.interfaces key ⟨value, hvalue⟩
  | world name its =>
    obtain ⟨w, mid, hw, h⟩ := gives_bind.1 h
    obtain ⟨rfl, rfl⟩ := gives_pure.1 h
    refine ⟨⟨hold.sorted.worlds.insert, hold.sorted.types, hold.sorted.interfaces⟩, hold.types,
      hold.interfaces, fun key hkey => ?_⟩
    obtain ⟨value, hvalue⟩ := hkey
    rcases NameMap.mem_insert hvalue with heq | hvalue
    · cases heq
      exact mem_flatMap_concat List.mem_cons_self
    · exact hold.worlds key ⟨value, hvalue⟩
  | _ => exact hother h

end LoadM

/-- The contents of a part have the names that its items declare. -/
theorem PackageBlock.Builds.declaredBy {b : PackageBlock} {part : Part} (h : b.Builds part) :
    part.contents.DeclaredBy b.items :=
  LoadM.gives_foldlM_induction (P := fun done c _ => c.DeclaredBy done)
    (fun _ _ _ _ _ _ => LoadM.declaredBy_packageItem) PackageContents.declaredBy_nil h.gives

end ComponentAbi
