import ComponentAbi.Proofs.Worlds.Declared

/-!
# Where worlds come from

Every world of a project that was loaded was declared in one of its documents: its imports and
exports are those that the document lists, and the interfaces that it has for itself are those that
are declared on the spot (`Project.traced_of_ofGroups`).
-/

namespace ComponentAbi

/-! ### Worlds as declared -/

namespace Item

/-- The import or export that an item declares. -/
def target? (direction : Direction) : Item → Option WorldItemDecl
  | importing target => if direction = .imported then some target else none
  | exporting target => if direction = .exported then some target else none
  | _ => none

/-- The imports or exports that the items of a world declare. -/
def targets (direction : Direction) (items : List Item) : List WorldItemDecl :=
  items.filterMap (target? direction)

end Item

/-- The import or export is the declared one. An interface that is declared on the spot is looked up
from the world, and another one from where its reference says. -/
def WorldItem.Stands (package scope : PackageRef) : WorldItemDecl → WorldItem → Prop
  | .function name _, item => item.name = name ∧ ∃ func, item.kind = .function func
  | .inline name _, item => item = { name, kind := .interface scope name }
  | .interface reference, item => ∃ origin, splitReference package reference = .ok origin ∧
      item = { name := reference, kind := .interface origin.1 origin.2 }

/-- The definitions, imports and exports are those that the items of a world declare. -/
structure Definitions.BuiltWorld (d : Definitions) (listed : Direction → List WorldItem)
    (a : TypeArena) (package scope : PackageRef) (items : List Item) : Prop where
  /-- Imports and exports, in order. -/
  listed : ∀ direction, List.Forall₂ (WorldItem.Stands package scope) (Item.targets direction items)
    (listed direction)
  /-- Interfaces that are declared on the spot are there. -/
  found : ∀ direction name its, .inline name its ∈ Item.targets direction items →
    ∃ i, d.interfaces.find? name = some i
  /-- There are no others. -/
  interfaces : ∀ e ∈ d.interfaces.entries, ∃ direction its,
    .inline e.1 its ∈ Item.targets direction items ∧ e.2.Built a scope e.1 its

/-- The world is the declared one. -/
def World.Built (w : World) (a : TypeArena) (items : List Item) : Prop :=
  Definitions.BuiltWorld w.definitions w.items a w.package w.scope items

section Growth

variable {a b : TypeArena} {items : List Item}

theorem Interface.Built.extend {i : Interface} {package : PackageRef} {name : String}
    (hab : a.Extends b) (h : i.Built a package name items) : i.Built b package name items where
  declaredIn := h.declaredIn
  parts := h.parts.extend hab

theorem Definitions.BuiltWorld.extend {d : Definitions} {listed : Direction → List WorldItem}
    {package scope : PackageRef} (hab : a.Extends b) (h : BuiltWorld d listed a package scope items) :
    BuiltWorld d listed b package scope items where
  listed := h.listed
  found := h.found
  interfaces e he :=
    let ⟨direction, its, htarget, hbuilt⟩ := h.interfaces e he
    ⟨direction, its, htarget, hbuilt.extend hab⟩

theorem World.Built.extend {w : World} (hab : a.Extends b) (h : w.Built a items) :
    w.Built b items :=
  Definitions.BuiltWorld.extend hab h

end Growth

namespace LoadM

variable {p q : Project} {package scope : PackageRef} {d d' : Definitions}

/-- An import or export adds the interface that is declared on the spot, if there is one. -/
theorem gives_worldItem {target : WorldItemDecl} {answer : Definitions × WorldItem}
    (h : (worldItem package scope d target).Gives p answer q) :
    p.arena.Extends q.arena ∧ WorldItem.Stands package scope target answer.2 ∧
      ((∃ name its i, target = .inline name its ∧ i.Built q.arena scope name its ∧
          answer.1.interfaces = d.interfaces.insert name i) ∨
        (∀ name its, target ≠ .inline name its) ∧ answer.1 = d) := by
  unfold worldItem at h
  cases target with
  | function name decl =>
    obtain ⟨func, mid, hfunc, h⟩ := gives_bind.1 h
    obtain ⟨rfl, rfl⟩ := gives_pure.1 h
    exact ⟨(extends_of_mirrors (fun _ => mirrors_function decl) hfunc).1, ⟨rfl, func, rfl⟩,
      .inr ⟨nofun, rfl⟩⟩
  | inline name its =>
    obtain ⟨i, mid, hi, h⟩ := gives_bind.1 h
    obtain ⟨rfl, rfl⟩ := gives_pure.1 h
    exact ⟨(extends_of_mirrors (fun _ => mirrors_interface scope name its) hi).1, rfl,
      .inl ⟨name, its, i, rfl, built_interface hi, rfl⟩⟩
  | interface reference =>
    obtain ⟨origin, horigin, h⟩ := gives_bind_liftM.1 h
    obtain ⟨rfl, rfl⟩ := gives_pure.1 h
    exact ⟨.refl _, ⟨origin, horigin, rfl⟩, .inr ⟨nofun, rfl⟩⟩

/-- The imports or exports of a world while its items are added. -/
def WorldParts.items (w : WorldParts) : Direction → List WorldItem
  | .imported => w.imports
  | .exported => w.exports

/-- The parts are those that the items declare. -/
def WorldParts.Built (w : WorldParts) (a : TypeArena) (package scope : PackageRef)
    (items : List Item) : Prop :=
  Definitions.BuiltWorld w.definitions w.items a package scope items

/-- What one more import or export changes. -/
theorem builtWorld_add (direction : Direction) {listed listed' : Direction → List WorldItem}
    {done : List Item} {item : Item} {target : WorldItemDecl} {answer : Definitions × WorldItem}
    (h : Definitions.BuiltWorld d listed p.arena package scope done)
    (htarget : ∀ other, item.target? other = if other = direction then some target else none)
    (hlisted : ∀ other, listed' other =
      if other = direction then listed other ++ [answer.2] else listed other)
    (hgives : (worldItem package scope d target).Gives p answer q) :
    Definitions.BuiltWorld answer.1 listed' q.arena package scope (done ++ [item]) := by
  obtain ⟨hextends, hstands, hinterfaces⟩ := gives_worldItem hgives
  have hold := h.extend hextends
  have htargets (other : Direction) : Item.targets other (done ++ [item]) =
      Item.targets other done ++ if other = direction then [target] else [] := by
    rw [Item.targets, List.filterMap_append, List.filterMap_cons, htarget]
    split <;> simp_all [Item.targets]
  have hmem {x : WorldItemDecl} {other : Direction} (hx : x ∈ Item.targets other done) :
      x ∈ Item.targets other (done ++ [item]) := by
    rw [htargets]
    exact List.mem_append_left _ hx
  refine ⟨fun other => ?_, fun other name its hother => ?_, fun e he => ?_⟩
  · rw [htargets, hlisted]
    by_cases hother : other = direction
    · rw [if_pos hother, if_pos hother]
      exact List.rel_append (hold.listed other) (.cons hstands .nil)
    · rw [if_neg hother, if_neg hother, List.append_nil]
      exact hold.listed other
  · have hkeep (h : ∃ i, d.interfaces.find? name = some i) :
        ∃ i, answer.1.interfaces.find? name = some i := by
      rcases hinterfaces with ⟨new, -, i, -, -, heq⟩ | ⟨-, heq⟩
      · rw [heq, NameMap.find?_insert]
        split
        · exact ⟨i, rfl⟩
        · exact h
      · rwa [heq]
    rw [htargets] at hother
    rcases List.mem_append.1 hother with hother | hother
    · exact hkeep (hold.found other name its hother)
    · split at hother
      · cases List.mem_singleton.1 hother
        rcases hinterfaces with ⟨_, _, i, htarget, -, heq⟩ | ⟨hne, -⟩
        · cases htarget
          exact ⟨i, by rw [heq, NameMap.find?_insert, if_pos rfl]⟩
        · exact absurd rfl (hne name its)
      · cases hother
  · have hkeep (h : e ∈ d.interfaces.entries) : ∃ other its,
        .inline e.1 its ∈ Item.targets other (done ++ [item]) ∧ e.2.Built q.arena scope e.1 its :=
      let ⟨other, its, hother, hbuilt⟩ := hold.interfaces e h
      ⟨other, its, hmem hother, hbuilt⟩
    rcases hinterfaces with ⟨name, its, i, rfl, hbuilt, heq⟩ | ⟨-, heq⟩
    · rw [heq] at he
      rcases NameMap.mem_insert he with rfl | he
      · refine ⟨direction, its, ?_, hbuilt⟩
        rw [htargets, if_pos rfl]
        exact List.mem_append_right _ List.mem_cons_self
      · exact hkeep he
    · exact hkeep (heq ▸ he)

/-- What an item that is no import or export changes. -/
theorem builtWorld_skip {listed : Direction → List WorldItem} {a b : TypeArena} {done : List Item}
    {item : Item} (h : Definitions.BuiltWorld d listed a package scope done) (hab : a.Extends b)
    (hinterfaces : d'.interfaces = d.interfaces) (hitem : ∀ other, item.target? other = none) :
    Definitions.BuiltWorld d' listed b package scope (done ++ [item]) := by
  have hold := h.extend hab
  have htargets (other : Direction) :
      Item.targets other (done ++ [item]) = Item.targets other done := by
    simp [Item.targets, hitem]
  refine ⟨fun other => ?_, fun other name its hother => ?_, fun e he => ?_⟩
  · rw [htargets]
    exact hold.listed other
  · rw [htargets] at hother
    rw [hinterfaces]
    exact hold.found other name its hother
  · rw [hinterfaces] at he
    obtain ⟨other, its, hother, hbuilt⟩ := hold.interfaces e he
    exact ⟨other, its, by rwa [htargets], hbuilt⟩

theorem built_worldPart {context : String} {done : List Item} {item : Item} {w w' : WorldParts}
    (hw : w.Built p.arena package scope done)
    (h : (worldPart package scope context w item).Gives p w' q) :
    w'.Built q.arena package scope (done ++ [item]) := by
  have hother (hitem : ∀ other, item.target? other = none)
      (h : (do return { w with definitions := ← definition scope context w.definitions item } :
        LoadM WorldParts).Gives p w' q) : w'.Built q.arena package scope (done ++ [item]) := by
    obtain ⟨d, mid, hd, h⟩ := gives_bind.1 h
    obtain ⟨rfl, rfl⟩ := gives_pure.1 h
    obtain ⟨hextends, -, -, -, hinterfaces⟩ := gives_definition hd
    exact builtWorld_skip hw hextends hinterfaces hitem
  unfold worldPart at h
  cases item with
  | importing target =>
    obtain ⟨answer, mid, hanswer, h⟩ := gives_bind.1 h
    obtain ⟨rfl, rfl⟩ := gives_pure.1 h
    refine builtWorld_add .imported hw (fun other => ?_) (fun other => ?_) hanswer
    · cases other <;> rfl
    · cases other <;> rfl
  | exporting target =>
    obtain ⟨answer, mid, hanswer, h⟩ := gives_bind.1 h
    obtain ⟨rfl, rfl⟩ := gives_pure.1 h
    refine builtWorld_add .exported hw (fun other => ?_) (fun other => ?_) hanswer
    · cases other <;> rfl
    · cases other <;> rfl
  | including reference =>
    obtain ⟨origin, -, h⟩ := gives_bind_liftM.1 h
    obtain ⟨rfl, rfl⟩ := gives_pure.1 h
    exact builtWorld_skip hw (.refl _) rfl fun _ => rfl
  | _ => exact hother (fun _ => rfl) h

theorem built_world {name : String} {items : List Item} {w : World}
    (h : (world package name items).Gives p w q) : w.Built q.arena items := by
  obtain ⟨parts, mid, hparts, h⟩ := gives_bind.1 h
  obtain ⟨type, mid', htype, h⟩ := gives_bind.1 h
  obtain ⟨rfl, rfl⟩ := gives_pure.1 h
  have hbuilt : parts.Built mid.arena package (package.push name) items := by
    refine gives_foldlM_induction (P := fun done w p =>
      w.Built p.arena package (package.push name) done)
      (fun done item w p w' q hdone => built_worldPart hdone) ?_ hparts
    refine ⟨fun direction => ?_, nofun, nofun⟩
    cases direction <;> exact .nil
  refine Definitions.BuiltWorld.extend (get?_of_gives_alloc htype).1 ?_
  refine ⟨fun direction => ?_, hbuilt.found, hbuilt.interfaces⟩
  have := hbuilt.listed direction
  cases direction <;> exact this

end LoadM

/-! ### Packages as declared -/

/-- The interface belongs to a package with a name, and no interfaces are nested in it. -/
structure Interface.Simple (i : Interface) : Prop where
  /-- The scope that declares it has a name. -/
  path : i.package.name.path ≠ []
  /-- Nothing is nested. -/
  nested : i.definitions.interfaces = {}

theorem Interface.Built.simple {i : Interface} {a : TypeArena} {package : PackageRef} {name : String}
    {items : List Item} (h : i.Built a package name items) (hpath : package.name.path ≠ []) :
    i.Simple where
  path := h.declaredIn ▸ hpath
  nested := h.parts.interfaces

/-- Worlds are declared by the items of the package. -/
structure PackageContents.Built (c : PackageContents) (a : TypeArena) (package : PackageRef)
    (items : List Item) : Prop where
  /-- Every world is as declared. -/
  worlds : ∀ e ∈ c.worlds.entries, e.2.package = package ∧
    ∃ its, .world e.2.name its ∈ items ∧ e.2.Built a its
  /-- No interfaces are nested in those of the package. -/
  interfaces : ∀ e ∈ c.definitions.interfaces.entries, e.2.Simple

theorem PackageContents.Built.extend {c : PackageContents} {a b : TypeArena} {package : PackageRef}
    {items : List Item} (hab : a.Extends b) (h : c.Built a package items) (item : Item) :
    c.Built b package (items ++ [item]) where
  worlds e he :=
    let ⟨hpackage, its, hits, hbuilt⟩ := h.worlds e he
    ⟨hpackage, its, List.mem_append_left _ hits, hbuilt.extend hab⟩
  interfaces := h.interfaces

namespace LoadM

variable {p q : Project} {package : PackageRef}

theorem built_packageItem {context : String} {done : List Item} {item : Item}
    {c c' : PackageContents} (hpath : package.name.path ≠ []) (hc : c.Built p.arena package done)
    (h : (packageItem package context c item).Gives p c' q) :
    c'.Built q.arena package (done ++ [item]) := by
  have hother (h : (do
      let d ← definition package context c.definitions item
      return { c with definitions := d } : LoadM PackageContents).Gives p c' q) :
      c'.Built q.arena package (done ++ [item]) := by
    obtain ⟨d, mid, hd, h⟩ := gives_bind.1 h
    obtain ⟨rfl, rfl⟩ := gives_pure.1 h
    obtain ⟨hextends, -, -, -, hinterfaces⟩ := gives_definition hd
    have hold := hc.extend hextends item
    exact ⟨hold.worlds, by rw [hinterfaces]; exact hold.interfaces⟩
  unfold packageItem at h
  cases item with
  | interface name its =>
    obtain ⟨i, mid, hi, h⟩ := gives_bind.1 h
    obtain ⟨rfl, rfl⟩ := gives_pure.1 h
    have hold := hc.extend (extends_of_mirrors (fun _ => mirrors_interface package name its) hi).1
      (.interface name its)
    refine ⟨hold.worlds, fun e he => ?_⟩
    rcases NameMap.mem_insert he with rfl | he
    · exact (built_interface hi).simple hpath
    · exact hold.interfaces e he
  | world name its =>
    obtain ⟨w, mid, hw, h⟩ := gives_bind.1 h
    obtain ⟨rfl, rfl⟩ := gives_pure.1 h
    have hold := hc.extend (extends_of_mirrors (fun _ => mirrors_world package name its) hw).1
      (.world name its)
    refine ⟨fun e he => ?_, hold.interfaces⟩
    rcases NameMap.mem_insert he with rfl | he
    · obtain ⟨hname, hpackage⟩ := name_of_gives_world hw
      refine ⟨hpackage, its, ?_, built_world hw⟩
      rw [hname]
      exact List.mem_append_right _ List.mem_cons_self
    · exact hold.worlds e he
  | _ => exact hother h

theorem built_packageItems {items : List Item} {c : PackageContents}
    (hpath : package.name.path ≠ []) (h : (packageItems package items).Gives p c q) :
    c.Built q.arena package items :=
  gives_foldlM_induction (P := fun done c p => c.Built p.arena package done)
    (fun _ _ _ _ _ _ => built_packageItem hpath) ⟨nofun, nofun⟩ h

end LoadM

/-! ### Projects as declared -/

namespace PackageStore

variable {s : PackageStore} {ref : PackageRef} {c new : PackageContents}

/-- Some version of some package has the contents. -/
def Contains (s : PackageStore) (c : PackageContents) : Prop :=
  ∃ p ∈ s.packages, ∃ e ∈ p.versions, e.2 = c

theorem contains_insert (h : (s.insert ref new).Contains c) :
    s.Contains c ∨ c = new ∨ ∃ old, s.Contains old ∧ c = old.merge new := by
  obtain ⟨p, hp, e, he, rfl⟩ := h
  rcases mem_insertPackage hp with hp | ⟨q, hq, -, rfl⟩
  · exact .inl ⟨p, hp, e, he, rfl⟩
  · have hold {e : Option Version × PackageContents} (he : e ∈ q.versions) : s.Contains e.2 := by
      rcases hq with hq | rfl
      · exact ⟨q, hq, e, he, rfl⟩
      · cases he
    rcases Package.mem_insertContents he with he | rfl | ⟨old, he, -, hmerge⟩
    · exact .inl (hold he)
    · exact .inr (.inl rfl)
    · exact .inr (.inr ⟨old, hold he, hmerge⟩)

end PackageStore

namespace Project

variable {p q : Project} {blocks : List PackageBlock}

/-- Every world is declared by some items of its package. -/
structure Traced (p : Project) (blocks : List PackageBlock) : Prop where
  /-- Every world is as declared. -/
  worlds : ∀ c, p.store.Contains c → ∀ e ∈ c.worlds.entries, ∃ b ∈ blocks, b.package = e.2.package ∧
    ∃ its, .world e.2.name its ∈ b.items ∧ e.2.Built p.arena its
  /-- No interfaces are nested in those of a package. -/
  interfaces : ∀ c, p.store.Contains c → ∀ e ∈ c.definitions.interfaces.entries, e.2.Simple

theorem Traced.insert {b : PackageBlock} {c : PackageContents} {mid : Project}
    (h : p.Traced blocks) (hpath : b.package.name.path ≠ [])
    (hgives : (LoadM.packageItems b.package b.items).Gives p c mid) :
    Traced { mid with store := mid.store.insert b.package c } (blocks ++ [b]) := by
  have hbuilt := LoadM.built_packageItems hpath hgives
  obtain ⟨hextends, hstore⟩ := LoadM.extends_of_mirrors
    (fun _ => LoadM.mirrors_packageItems b.package b.items) hgives
  rw [hstore]
  have hnew {e : String × World} (he : e ∈ c.worlds.entries) :
      ∃ b' ∈ blocks ++ [b], b'.package = e.2.package ∧
        ∃ its, .world e.2.name its ∈ b'.items ∧ e.2.Built mid.arena its :=
    let ⟨hpackage, its, hits, he⟩ := hbuilt.worlds e he
    ⟨b, List.mem_append_right _ List.mem_cons_self, hpackage.symm, its, hits, he⟩
  have hold {old : PackageContents} (hc : p.store.Contains old) {e : String × World}
      (he : e ∈ old.worlds.entries) : ∃ b' ∈ blocks ++ [b], b'.package = e.2.package ∧
        ∃ its, .world e.2.name its ∈ b'.items ∧ e.2.Built mid.arena its :=
    let ⟨b', hb, hpackage, its, hits, he⟩ := h.worlds old hc e he
    ⟨b', List.mem_append_left _ hb, hpackage, its, hits, he.extend hextends⟩
  refine ⟨fun c' hc e he => ?_, fun c' hc e he => ?_⟩
  · rcases PackageStore.contains_insert hc with hc | rfl | ⟨old, holds, rfl⟩
    · exact hold hc he
    · exact hnew he
    · exact (NameMap.mem_merge he).elim hnew (hold holds)
  · rcases PackageStore.contains_insert hc with hc | rfl | ⟨old, holds, rfl⟩
    · exact h.interfaces c' hc e he
    · exact hbuilt.interfaces e he
    · exact (NameMap.mem_merge he).elim (hbuilt.interfaces e) (h.interfaces old holds e)

theorem traced_of_adds {done : List PackageBlock} (hp : p.Traced done)
    (hpath : ∀ b ∈ blocks, b.package.name.path ≠ []) (h : Adds blocks p q) :
    q.Traced (done ++ blocks) := by
  induction blocks generalizing p done with
  | nil =>
    rw [adds_nil.1 h, List.append_nil]
    exact hp
  | cons b rest ih =>
    obtain ⟨mid, hfirst, hrest⟩ := adds_append.1 (show Adds ([b] ++ rest) p q from h)
    obtain ⟨c, loaded, hgives, hinsert⟩ := LoadM.gives_bind.1 (LoadM.gives_block (u := ()).2 hfirst)
    cases LoadM.gives_insert.1 hinsert
    have := ih (hp.insert (hpath b List.mem_cons_self) hgives)
      (fun b hb => hpath b (List.mem_cons_of_mem _ hb)) hrest
    rwa [List.append_assoc] at this

/-- In a project that was loaded, every world is one that a document declares. -/
theorem traced_of_ofGroups {groups : List SourceGroup} {bss : List (List PackageBlock)}
    (hbss : groups.mapM SourceGroup.blocks = .ok bss) (h : ofGroups groups = .ok p) :
    p.Traced bss.flatten := by
  obtain ⟨bss', hbss', hadds⟩ := ofGroups_eq_ok.1 h
  cases hbss.symm.trans hbss'
  have hempty : Traced {} [] := by
    refine ⟨?_, ?_⟩
    · rintro c ⟨_, h, -⟩
      cases h
    · rintro c ⟨_, h, -⟩
      cases h
  refine traced_of_adds hempty (fun b hb => ?_) hadds
  obtain ⟨bs, hbs, hb⟩ := List.mem_flatten.1 hb
  obtain ⟨g, -, hg⟩ := Except.exists_of_mem_mapM hbss hbs
  exact (SourceGroup.plain_of_blocks hg b hb).name.path

end Project

end ComponentAbi
