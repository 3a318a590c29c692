import ComponentAbi.Proofs.Names.Written
import ComponentAbi.Proofs.Resolve.Interfaces
import ComponentAbi.Proofs.Worlds.Origin

/-!
# Interfaces that are declared inside worlds

An interface that a world declares on the spot, for an import or export, is listed under the name of
the item. The functions listed there are the declared ones (`Project.worldFunctions_inline`), as
long as no import and export of the world declare interfaces of one name: a world has one place for
an interface of a name, and the one declared last has it (`Project.worldFunctions_collided`).
-/

namespace ComponentAbi

/-! ### Names -/

/-- The name under which an import or export is listed. -/
def WorldItemDeclOf.name {ι : Type} : WorldItemDeclOf ι → String
  | .function name _ => name
  | .inline name _ => name
  | .interface reference => reference

/-- The items of a world name what they declare once. -/
structure Item.Apart (items : List Item) : Prop where
  /-- Imports have different names, and exports have. -/
  names : ∀ direction, ((targets direction items).map WorldItemDeclOf.name).Nodup
  /-- No import and export declare interfaces of the same name. -/
  directions : ∀ name its its', .inline name its ∈ targets .imported items →
    .inline name its' ∉ targets .exported items
  /-- No separator is in the name of an interface that is declared on the spot. -/
  plain : ∀ direction name its, .inline name its ∈ targets direction items →
    ':' ∉ name.toList ∧ '/' ∉ name.toList
  /-- The types of such an interface have different names. -/
  types : ∀ direction name its, .inline name its ∈ targets direction items →
    (its.flatMap typeNames).Nodup
  /-- The functions of such an interface have different names. -/
  members : ∀ direction name its, .inline name its ∈ targets direction items →
    ((memberDecls its).map (·.1)).Nodup

theorem Item.Apart.inline_unique {items its its' : List Item} {direction direction' : Direction}
    {name : String} (h : Apart items) (hits : .inline name its ∈ targets direction items)
    (hits' : .inline name its' ∈ targets direction' items) : its = its' := by
  have hsame {direction : Direction} {its its' : List Item}
      (hits : .inline name its ∈ targets direction items)
      (hits' : .inline name its' ∈ targets direction items) : its = its' := by
    cases List.inj_on_of_nodup_map (h.names direction) hits hits' rfl
    rfl
  cases direction <;> cases direction'
  · exact hsame hits hits'
  · exact absurd hits' (h.directions name its its' hits)
  · exact absurd hits (h.directions name its' its hits')
  · exact hsame hits hits'

theorem PackageName.namespaces_of_parse {s : String} {n : PackageName} (h : parse s = .ok n)
    (hcolon : ':' ∉ s.toList) : n.namespaces = [] := by
  rw [parse, Text.cutLast_eq_none hcolon] at h
  simp only at h
  split at h
  · cases h
  · split at h
    · cases h
    · cases h
      rfl

theorem PackageRef.namespaces_of_parse {s : String} {r : PackageRef} (h : parse s = .ok r)
    (hcolon : ':' ∉ s.toList) : r.name.namespaces = [] := by
  rw [parse] at h
  split at h
  · rename_i front back hcut
    obtain ⟨version, -, h⟩ := Except.bind_eq_ok.1 h
    obtain ⟨name, hname, h⟩ := Except.bind_eq_ok.1 h
    cases h
    refine PackageName.namespaces_of_parse hname fun hfront => hcolon ?_
    rw [(Text.toList_of_cutFirst hcut).1]
    exact List.mem_append_left _ hfront
  · obtain ⟨name, hname, h⟩ := Except.bind_eq_ok.1 h
    cases h
    exact PackageName.namespaces_of_parse hname hcolon

/-- A reference without a namespace is looked up from the scope it stands in. -/
theorem origin_of_splitReference {scope : PackageRef} {reference : String}
    {origin : PackageRef × String} (h : splitReference scope reference = .ok origin)
    (hcolon : ':' ∉ reference.toList) : origin.1 = scope := by
  obtain ⟨parsed, hparsed, h⟩ := Except.bind_eq_ok.1 h
  have honly : parsed.isIdentifierOnly = true := by
    simp [PackageRef.isIdentifierOnly, PackageName.isIdentifierOnly,
      PackageRef.namespaces_of_parse (Except.mapError_eq_ok.1 hparsed) hcolon]
  rw [if_pos honly] at h
  cases h
  rfl

theorem PackageRef.same_self (r : PackageRef) : r.same r := by
  have hversion : sameVersion r.version r.version := by
    cases r.version with
    | none => rfl
    | some v =>
      have heq : v.compare v = .eq := Std.ReflCmp.compare_self
      simp [sameVersion, Version.same, heq]
  simp [same, hversion]

/-- A world is not a package of its own. -/
theorem World.not_same_scope (w : World) : w.package.same w.scope = false := by
  have hne : w.package.name ≠ w.scope.name := fun h => by
    simpa [scope, PackageRef.push, PackageName.push] using congrArg (·.path.length) h
  simp [PackageRef.same, hne]

theorem Interface.Simple.slash_mem {i : Interface} (h : i.Simple) : '/' ∈ i.moduleName.toList := by
  have hname : '/' ∈ (i.package.name.push i.name).toText.toList := by
    rw [PackageName.toText_push h.path]
    simp
  rw [moduleName, PackageRef.toText, PackageRef.push]
  split <;> simp [hname]

/-! ### Interfaces are found -/

/-- No interfaces are nested in those that are found from the container. -/
def Container.Shallow : Container → Prop
  | .package contents => (∀ w ∈ contents.worlds.entries,
      ∀ e ∈ w.2.definitions.interfaces.entries, e.2.Simple) ∧
      ∀ e ∈ contents.definitions.interfaces.entries, e.2.Simple
  | .world w => ∀ e ∈ w.definitions.interfaces.entries, e.2.Simple
  | .interface i => i.Simple

theorem Container.Shallow.simple {c : Container} (h : c.Shallow) {name : String} {i : Interface}
    (hi : c.definitions.interfaces.find? name = some i) : i.Simple := by
  have hmem := NameMap.mem_of_find? hi
  cases c with
  | package contents => exact h.2 _ hmem
  | world w => exact h _ hmem
  | interface outer =>
    rw [definitions, Interface.Simple.nested h] at hmem
    cases hmem

theorem Container.Shallow.nested {c inner : Container} (h : c.Shallow) {name : String}
    (hinner : c.nested? name = some inner) : inner.Shallow := by
  have hinterface (hi : (c.definitions.interfaces.find? name).map interface = some inner) :
      inner.Shallow := by
    obtain ⟨i, hfound, rfl⟩ := Option.map_eq_some_iff.1 hi
    exact h.simple hfound
  cases c with
  | package contents =>
    rcases Option.or_eq_some_iff.1 hinner with hw | ⟨-, hi⟩
    · obtain ⟨w, hfound, rfl⟩ := Option.map_eq_some_iff.1 hw
      exact h.1 _ (NameMap.mem_of_find? hfound)
    · exact hinterface hi
  | world w => exact hinterface hinner
  | interface outer => exact hinterface hinner

theorem Container.Shallow.walk {c inner : Container} (h : c.Shallow) {names : List String}
    (hinner : c.walk? names = some inner) : inner.Shallow := by
  induction names generalizing c with
  | nil =>
    cases hinner
    exact h
  | cons name rest ih =>
    obtain ⟨next, hnext, hrest⟩ := Option.bind_eq_some_iff.1 hinner
    exact ih (h.nested hnext) hrest

theorem PackageStore.exists_visit_of_outwards {α : Type} {found : α} {package : PackageRef}
    {visit : PackageRef → List String → Except (List String) α}
    (h : outwards visit package = .ok found) : ∃ ref names, visit ref names = .ok found := by
  rw [outwards] at h
  generalize package.name.path.reverse = path, ([] : List String) = stripped at h
  induction path generalizing stripped with
  | nil => exact ⟨_, _, h⟩
  | cons last outer ih =>
    rw [outwardsFrom] at h
    split at h
    · rename_i hvisit
      cases h
      exact ⟨_, _, hvisit⟩
    · split at h
      · cases h
      · exact ih _ (Except.mapError_eq_ok.1 h)

namespace Project

variable {p : Project} {w : World}

theorem exists_container_of_interfaceWithin {contents : PackageContents} {names : List String}
    {name : String} {depth : Nat} {i : Interface}
    (h : interfaceWithin contents names name depth = some i) :
    ∃ names' c, (Container.package contents).walk? names' = some c ∧
      c.definitions.interfaces.find? name = some i := by
  induction depth with
  | zero => exact ⟨[], .package contents, rfl, h⟩
  | succ depth ih =>
    rw [interfaceWithin_succ] at h
    rcases Option.or_eq_some_iff.1 h with h | ⟨-, h⟩
    · obtain ⟨c, hc, hi⟩ := Option.bind_eq_some_iff.1 h
      exact ⟨_, c, hc, hi⟩
    · exact ih h

/-- No interface that is found has others nested in it. -/
theorem simple_of_findInterface
    (h : ∀ contents, p.store.Contains contents → (Container.package contents).Shallow)
    {package : PackageRef} {name : String} {i : Interface}
    (hi : p.findInterface package name = .ok i) : i.Simple := by
  obtain ⟨ref, names, hvisit⟩ := PackageStore.exists_visit_of_outwards (Except.mapError_eq_ok.1 hi)
  rw [interfaceIn] at hvisit
  split at hvisit
  · cases hvisit
  · rename_i contents hlookup
    split at hvisit
    · rename_i hfound
      cases hvisit
      obtain ⟨names', c, hwalk, hi⟩ := exists_container_of_interfaceWithin hfound
      obtain ⟨q, hq, -, e, he, rfl⟩ :=
        PackageStore.exists_entry_of_contents? (PackageStore.lookup_eq_ok.1 hlookup)
      exact ((h _ ⟨q, hq, e, he, rfl⟩).walk hwalk).simple hi
    · cases hvisit

/-- An interface that a world declares is found from the scope of the world. -/
theorem findInterface_scope (hw : p.store.Homed w) (hscope : p.store.find? w.scope.name = none)
    {name : String} {i : Interface} (hi : w.definitions.interfaces.find? name = some i) :
    p.findInterface w.scope name = .ok i := by
  obtain ⟨q, contents, hq, hcontents, hfound⟩ := hw.found
  have hlookup : p.store.lookup w.package = .ok contents := by
    rw [PackageStore.lookup_eq_ok, PackageStore.contents?, hq]
    cases hversion : w.package.version with
    | none => simp [← hversion, hcontents]
    | some version => simpa [← hversion] using hcontents
  have hvisit : p.interfaceIn name w.package [w.name] = .ok i := by
    rw [interfaceIn, hlookup]
    simp [interfaceWithin, definitionsAt?, hfound, hi]
  have hmissing : p.interfaceIn name w.scope [] =
      .error [(ResolveError.unknownPackage w.scope.toText).message] := by
    rw [interfaceIn, PackageStore.lookup_of_find?_eq_none hscope]
  exact Except.mapError_eq_ok.2 (PackageStore.outwards_push hw.plain.name.path hmissing hvisit)

/-! ### Functions of inline interfaces -/

/-- Some items of its package declare the world in the documents. -/
def Declares (groups : List SourceGroup) (w : World) (items : List Item) : Prop :=
  ∃ bss, groups.mapM SourceGroup.blocks = .ok bss ∧ ∃ b ∈ bss.flatten, b.package = w.package ∧
    .world w.name items ∈ b.items

section Own

variable {items its : List Item} {direction : Direction} {name : String} {f : WorldFunction}

/-- What a world offers under the name of an interface that it declares is declared there. -/
theorem exists_declared_of_offers
    (hshallow : ∀ contents, p.store.Contains contents → (Container.package contents).Shallow)
    (hw : p.store.Homed w) (hscope : p.store.find? w.scope.name = none)
    (hbuilt : w.Built p.arena items) (hapart : Item.Apart items)
    (hits : .inline name its ∈ Item.targets direction items) (hoffers : p.Offers w f)
    (hdirection : f.direction = direction) (hmodule : f.module = some name) :
    ∃ m, (f.name, m) ∈ Item.memberDecls its ∧
      p.arena.DenotesMember (w.scope.push name) m f.func := by
  obtain ⟨hcolon, hslash⟩ := hapart.plain direction name its hits
  cases hoffers with
  | function hitem => cases hmodule
  | @member _ item package target i member func hitem hkind hfound hmember =>
    cases hdirection
    have hsimple := simple_of_findInterface hshallow hfound
    obtain ⟨decl, hdecl, hstands⟩ := exists_left_of_forall₂ (hbuilt.listed _) hitem
    have hname : item.name = name ∧ package.same w.scope := by
      by_cases hsame : package.same w.scope
      · rw [if_pos hsame] at hmodule
        exact ⟨Option.some.inj hmodule, hsame⟩
      · rw [if_neg hsame] at hmodule
        exact absurd (Option.some.inj hmodule ▸ hsimple.slash_mem) hslash
    cases decl with
    | function other decl =>
      obtain ⟨-, func, hfunc⟩ := hstands
      cases hfunc.symm.trans hkind
    | interface reference =>
      obtain ⟨origin, horigin, rfl⟩ := hstands
      cases hkind
      obtain ⟨rfl, hsame⟩ := hname
      rw [origin_of_splitReference horigin hcolon, w.not_same_scope] at hsame
      cases hsame
    | inline other its' =>
      cases hstands
      cases hkind
      cases hname.1
      cases hapart.inline_unique hdecl hits
      obtain ⟨own, hown⟩ := hbuilt.found _ _ _ hits
      cases (findInterface_scope hw hscope hown).symm.trans hfound
      obtain ⟨direction', its', hits', hi⟩ := hbuilt.interfaces _ (NameMap.mem_of_find? hown)
      cases hapart.inline_unique hits' hits
      exact hi.exists_declared hmember

/-- A world offers what is declared in an interface that it declares itself. -/
theorem exists_offers_of_declared (hw : p.store.Homed w)
    (hscope : p.store.find? w.scope.name = none) (hbuilt : w.Built p.arena items)
    (hapart : Item.Apart items) (hits : .inline name its ∈ Item.targets direction items)
    {member : String} {m : MemberDecl} (hm : (member, m) ∈ Item.memberDecls its) :
    ∃ func, p.Offers w { direction, module := some name, name := member, func } := by
  obtain ⟨i, hown⟩ := hbuilt.found _ _ _ hits
  obtain ⟨direction', its', hits', hi⟩ := hbuilt.interfaces _ (NameMap.mem_of_find? hown)
  cases hapart.inline_unique hits' hits
  obtain ⟨func, hmember, -⟩ := hi.exists_member (hapart.types _ _ _ hits) hm
  obtain ⟨item, hitem, hstands⟩ := exists_right_of_forall₂ (hbuilt.listed direction) hits
  cases hstands
  have hoffers := Offers.member hitem rfl (findInterface_scope hw hscope hown) hmember
  rw [if_pos w.scope.same_self] at hoffers
  exact ⟨func, hoffers⟩

end Own

theorem Traced.shallow {blocks : List PackageBlock} (h : p.Traced blocks) (c : PackageContents)
    (hc : p.store.Contains c) : (Container.package c).Shallow := by
  refine ⟨fun e he i hi => ?_, h.interfaces c hc⟩
  obtain ⟨-, -, -, its, -, hbuilt⟩ := h.worlds c hc e he
  obtain ⟨-, its', -, hi⟩ := hbuilt.interfaces i hi
  exact hi.simple (by simp [World.scope, PackageRef.push, PackageName.push])

end Project

/-- Entries that come first are kept. -/
theorem WorldFunction.exists_mem_distinct_append {own more : List WorldFunction} {f : WorldFunction}
    (h : f ∈ own) : ∃ g ∈ own, g ∈ distinct (own ++ more) ∧ f.sameEntry g := by
  obtain ⟨hpairwise, -, hown, hall⟩ := @keep_spec own [] List.Pairwise.nil
  obtain ⟨g, hg, hsame⟩ := hall f h
  refine ⟨g, (hown g hg).resolve_left List.not_mem_nil, ?_, hsame⟩
  rw [distinct, List.mem_reverse, List.foldl_append]
  exact (keep_spec hpairwise).2.1 g hg

namespace Project

variable {p : Project} {w : World}

/-- An interface that a world declares on the spot is always found. Its functions are listed under
its name, with the declared signatures, and others only if an included world offers them. -/
theorem worldFunctions_inline {groups : List SourceGroup} {reference : String}
    (hload : ofGroups groups = .ok p) (hw : p.world reference = .ok w)
    (hscope : p.store.find? w.scope.name = none)
    (hapart : ∀ items, Declares groups w items → Item.Apart items) :
    ∃ items, Declares groups w items ∧ ∀ direction name its,
      .inline name its ∈ Item.targets direction items →
        (∃ own, p.itemFunctions w.scope direction { name, kind := .interface w.scope name } =
          .ok own) ∧
        ∀ functions, p.worldFunctions reference = .ok functions →
          (∀ x ∈ Item.memberDecls its, ∃ f ∈ functions, f.direction = direction ∧
            f.module = some name ∧ f.name = x.1 ∧
            p.arena.DenotesMember (w.scope.push name) x.2 f.func) ∧
          ∀ f ∈ functions, f.direction = direction → f.module = some name →
            (∃ m, (f.name, m) ∈ Item.memberDecls its ∧
              p.arena.DenotesMember (w.scope.push name) m f.func) ∨
            ∃ w', Relation.TransGen p.Includes w w' ∧ p.Offers w' f := by
  obtain ⟨bss, hbss, -⟩ := ofGroups_eq_ok.1 hload
  have htraced := traced_of_ofGroups hbss hload
  obtain ⟨package, key, hfound⟩ := world_eq_ok hw
  obtain ⟨contents, hcontents, hfound⟩ := worldIn_eq_ok.1 hfound
  have hhomed := (filed_of_ofGroups hload).homed hcontents hfound
  obtain ⟨q, hq, -, e, he, rfl⟩ := PackageStore.exists_entry_of_contents? hcontents
  obtain ⟨b, hb, hpackage, items, hdeclared, hbuilt⟩ :=
    htraced.worlds e.2 ⟨q, hq, e, he, rfl⟩ _ (NameMap.mem_of_find? hfound)
  have hdeclares : Declares groups w items := ⟨bss, hbss, b, hb, hpackage, hdeclared⟩
  have hapart := hapart items hdeclares
  refine ⟨items, hdeclares, fun direction name its hits => ⟨?_, fun functions hfunctions => ?_⟩⟩
  · obtain ⟨i, hi⟩ := hbuilt.found _ _ _ hits
    exact ⟨_, Except.bind_eq_ok.2 ⟨i, findInterface_scope hhomed hscope hi, rfl⟩⟩
  obtain ⟨w', all, hw', hall, rfl⟩ := worldFunctions_eq_ok.1 hfunctions
  cases hw.symm.trans hw'
  obtain ⟨-, imports, exports, included, himports, hexports, hincluded, rfl⟩ :=
    expandWorld_eq_ok.1 hall
  have hown {f : WorldFunction} : f ∈ imports.flatten ++ exports.flatten ↔ p.Offers w f := by
    rw [List.mem_append, mem_flatten_items himports, mem_flatten_items hexports, ← and_or_left]
    exact and_iff_left (by cases f.direction <;> simp)
  have hdeclared {f : WorldFunction} := exists_declared_of_offers (f := f) htraced.shallow hhomed
    hscope hbuilt hapart hits
  refine ⟨fun x hx => ?_, fun f hf hdirection hmodule => ?_⟩
  · obtain ⟨func, hoffers⟩ := exists_offers_of_declared hhomed hscope hbuilt hapart hits hx
    obtain ⟨g, hg, hkept, hsame⟩ := WorldFunction.exists_mem_distinct_append (hown.2 hoffers)
    obtain ⟨hdirection, hmodule, hname⟩ := WorldFunction.sameEntry_iff.1 hsame
    obtain ⟨m, hm, hdenotes⟩ := hdeclared (hown.1 hg) hdirection.symm hmodule.symm
    cases List.inj_on_of_nodup_map (hapart.members _ _ _ hits) hx hm hname
    exact ⟨g, hkept, hdirection.symm, hmodule.symm, rfl, hdenotes⟩
  · rcases List.mem_append.1 (WorldFunction.mem_of_mem_distinct hf) with hf | hf
    · exact .inl (hdeclared (hown.1 hf) hdirection hmodule)
    · obtain ⟨fs, hfs, hf⟩ := List.mem_flatten.1 hf
      obtain ⟨i, hi, hexpanded⟩ := Except.exists_of_mem_mapM hincluded hfs
      obtain ⟨next, hnext, hexpanded⟩ := expandInclude_eq_ok.1 hexpanded
      obtain ⟨w', hreach, hoffers⟩ := (mem_of_expandWorld hexpanded).1 hf
      exact .inr ⟨w', Relation.TransGen.head' ⟨i, hi, hnext⟩ hreach, hoffers⟩

/-! ### Adding an interface that is declared on the spot -/

section Parts

variable {package scope : PackageRef} {context name : String} {parts : LoadM.WorldParts}
  {its : List Item} {i : Interface} {q : Project}

theorem gives_importing_inline (h : (LoadM.interface scope name its).Gives p i q) :
    (LoadM.worldPart package scope context parts (.importing (.inline name its))).Gives p
      { parts with
        definitions := { parts.definitions with
                         interfaces := parts.definitions.interfaces.insert name i }
        imports := parts.imports ++ [{ name, kind := .interface scope name }] } q :=
  LoadM.gives_bind.2 ⟨(_, _), q, LoadM.gives_bind.2 ⟨i, q, h, rfl⟩, rfl⟩

theorem gives_exporting_inline (h : (LoadM.interface scope name its).Gives p i q) :
    (LoadM.worldPart package scope context parts (.exporting (.inline name its))).Gives p
      { parts with
        definitions := { parts.definitions with
                         interfaces := parts.definitions.interfaces.insert name i }
        exports := parts.exports ++ [{ name, kind := .interface scope name }] } q :=
  LoadM.gives_bind.2 ⟨(_, _), q, LoadM.gives_bind.2 ⟨i, q, h, rfl⟩, rfl⟩

end Parts

/-! ### Two interfaces of one name -/

/-- The package of a world with interfaces of its own. -/
def geo : PackageRef :=
  { name := { namespaces := ["ns"], path := ["geo"] } }

/-- The world imports an interface `clock`, and exports an interface that sets it. -/
def shopItems (exported : String) : List Item :=
  [.importing (.inline "clock" [.func "now" { results := [.name "u64"] }]),
    .exporting (.inline exported [.func "set" { params := [("time", .name "u64")] }])]

/-- A document with the world. -/
def shopGroups (exported : String) : List SourceGroup :=
  [{ directory := "geo"
     files := [{ path := "geo/a.json",
                 document := { package := some "ns:geo",
                               items := [.world "shop" (shopItems exported)] } }] }]

/-- An interface of the world, as it is loaded. -/
def shopInterface (name function : String) (func type : TypeId) : Interface where
  name
  package := geo.push "shop"
  definitions := {}
  functions := [{ name := function, func }]
  type

/-- The world, as it is loaded. -/
def shopWorld (exported : String) : World where
  name := "shop"
  package := geo
  definitions :=
    { interfaces :=
        (({} : NameMap Interface).insert "clock" (shopInterface "clock" "now" ⟨1⟩ ⟨2⟩)).insert
          exported (shopInterface exported "set" ⟨4⟩ ⟨5⟩) }
  imports := [{ name := "clock", kind := .interface (geo.push "shop") "clock" }]
  exports := [{ name := exported, kind := .interface (geo.push "shop") exported }]
  includes := []
  type := ⟨6⟩

/-- The project of the document. -/
def shop (exported : String) : Project where
  arena := ⟨#[.scalar .u64, .function { params := [], results := [⟨0⟩] },
    .interface { package := geo.push "shop", name := "clock" }, .scalar .u64,
    .function { params := [("time", ⟨3⟩)], results := [] },
    .interface { package := geo.push "shop", name := exported },
    .world { package := geo, name := "shop" }]⟩
  store := ⟨[{ name := geo.name,
               versions := [(none, { worlds := ⟨[("shop", shopWorld exported)]⟩ })] }]⟩

theorem blocks_shop (exported : String) : (shopGroups exported).mapM SourceGroup.blocks =
    .ok [[{ package := geo, items := [.world "shop" (shopItems exported)] }]] := rfl

theorem ofGroups_shop (exported : String) :
    ofGroups (shopGroups exported) = .ok (shop exported) := by
  -- Item by item, as nothing evaluates far with the name of the second interface open.
  have hclock : (LoadM.interface (geo.push "shop") "clock"
      [.func "now" { results := [.name "u64"] }]).Gives {} (shopInterface "clock" "now" ⟨1⟩ ⟨2⟩)
        { arena := ⟨#[.scalar .u64, .function { params := [], results := [⟨0⟩] },
          .interface { package := geo.push "shop", name := "clock" }]⟩ } := rfl
  have hexported : (LoadM.interface (geo.push "shop") exported
      [.func "set" { params := [("time", .name "u64")] }]).Gives
        { arena := ⟨#[.scalar .u64, .function { params := [], results := [⟨0⟩] },
          .interface { package := geo.push "shop", name := "clock" }]⟩ }
        (shopInterface exported "set" ⟨4⟩ ⟨5⟩)
        { arena := ⟨#[.scalar .u64, .function { params := [], results := [⟨0⟩] },
          .interface { package := geo.push "shop", name := "clock" }, .scalar .u64,
          .function { params := [("time", ⟨3⟩)], results := [] },
          .interface { package := geo.push "shop", name := exported }]⟩ } := rfl
  have hparts : ((shopItems exported).foldlM (LoadM.worldPart geo (geo.push "shop")
      "world 'shop'") {}).Gives {} _ _ :=
    LoadM.gives_foldlM_cons.2 ⟨_, _, gives_importing_inline hclock,
      LoadM.gives_foldlM_cons.2 ⟨_, _, gives_exporting_inline hexported,
        LoadM.gives_foldlM_nil.2 ⟨rfl, rfl⟩⟩⟩
  have hworld : (LoadM.world geo "shop" (shopItems exported)).Gives {} (shopWorld exported)
      { arena := (shop exported).arena } :=
    LoadM.gives_bind.2 ⟨_, _, hparts, rfl⟩
  have hitems : (LoadM.packageItems geo [.world "shop" (shopItems exported)]).Gives {}
      { worlds := ⟨[("shop", shopWorld exported)]⟩ } { arena := (shop exported).arena } :=
    LoadM.gives_foldlM_cons.2 ⟨_, _, LoadM.gives_bind.2 ⟨_, _, hworld, rfl⟩, rfl⟩
  have hadds : Adds [{ package := geo, items := [.world "shop" (shopItems exported)] }] {}
      (shop exported) :=
    LoadM.gives_block.1 (LoadM.gives_bind.2 ⟨_, _, hitems, (LoadM.gives_insert (u := ())).2 rfl⟩)
  exact ofGroups_eq_ok.2 ⟨_, blocks_shop exported, hadds⟩

theorem declares_shop {exported : String} {items : List Item} :
    Declares (shopGroups exported) (shopWorld exported) items ↔ items = shopItems exported := by
  constructor
  · rintro ⟨bss, hbss, b, hb, -, hitems⟩
    cases (blocks_shop exported).symm.trans hbss
    cases List.mem_singleton.1 hb
    cases List.mem_singleton.1 hitems
    rfl
  · rintro rfl
    exact ⟨_, blocks_shop exported, _, List.mem_cons_self, rfl, List.mem_cons_self⟩

/-- A world imports and exports an interface of the same name, and the imported functions are those
of the exported interface. -/
theorem worldFunctions_collided :
    ofGroups (shopGroups "clock") = .ok (shop "clock") ∧
      (shop "clock").world "ns:geo/shop" = .ok (shopWorld "clock") ∧
      Declares (shopGroups "clock") (shopWorld "clock") (shopItems "clock") ∧
      (∀ direction, ((Item.targets direction (shopItems "clock")).map WorldItemDeclOf.name).Nodup) ∧
      (shop "clock").store.find? (shopWorld "clock").scope.name = none ∧
      (shopWorld "clock").includes = [] ∧
      .inline "clock" [.func "now" { results := [.name "u64"] }] ∈
        Item.targets .imported (shopItems "clock") ∧
      ∃ functions, (shop "clock").worldFunctions "ns:geo/shop" = .ok functions ∧
        (∀ f ∈ functions, f.name ≠ "now") ∧
        ∃ f ∈ functions, f.direction = .imported ∧ f.module = some "clock" ∧ f.name = "set" := by
  have hlist : (shop "clock").worldFunctions "ns:geo/shop" = .ok
      [{ direction := .imported, module := some "clock", name := "set", func := ⟨4⟩ },
        { direction := .exported, module := some "clock", name := "set", func := ⟨4⟩ }] := rfl
  refine ⟨ofGroups_shop "clock", rfl, declares_shop.2 rfl, fun direction => ?_, rfl, rfl, ?_, _,
    hlist, by simp, by simp⟩
  · cases direction <;> exact List.nodup_singleton _
  · exact List.mem_cons_self

theorem apart_shop : Item.Apart (shopItems "calendar") := by
  have htargets {direction : Direction} {name : String} {its : List Item}
      (h : .inline name its ∈ Item.targets direction (shopItems "calendar")) :
      (direction = .imported ∧ name = "clock" ∧ its = [.func "now" { results := [.name "u64"] }]) ∨
        (direction = .exported ∧ name = "calendar" ∧
          its = [.func "set" { params := [("time", .name "u64")] }]) := by
    cases direction <;> cases List.mem_singleton.1 h <;> simp
  refine ⟨fun direction => ?_, fun name its its' h h' => ?_, fun direction name its h => ?_,
    fun direction name its h => ?_, fun direction name its h => ?_⟩
  · cases direction <;> exact List.nodup_singleton _
  · rcases htargets h with ⟨-, rfl, -⟩ | ⟨h, -⟩
    · rcases htargets h' with ⟨h, -⟩ | ⟨-, h, -⟩
      · cases h
      · revert h
        decide
    · cases h
  · rcases htargets h with ⟨-, rfl, -⟩ | ⟨-, rfl, -⟩ <;> simp
  · rcases htargets h with ⟨-, -, rfl⟩ | ⟨-, -, rfl⟩ <;> exact List.nodup_nil
  · rcases htargets h with ⟨-, -, rfl⟩ | ⟨-, -, rfl⟩ <;> exact List.nodup_singleton _

theorem worldFunctions_inline_shop : ∃ functions,
    (shop "calendar").worldFunctions "ns:geo/shop" = .ok functions ∧ ∃ f ∈ functions,
      f.direction = .imported ∧ f.module = some "clock" ∧ f.name = "now" ∧
        (shop "calendar").arena.DenotesMember ((geo.push "shop").push "clock")
          (.function { results := [.name "u64"] }) f.func := by
  have hlist : (shop "calendar").worldFunctions "ns:geo/shop" = .ok
      [{ direction := .imported, module := some "clock", name := "now", func := ⟨1⟩ },
        { direction := .exported, module := some "calendar", name := "set", func := ⟨4⟩ }] := rfl
  have hworld : (shop "calendar").world "ns:geo/shop" = .ok (shopWorld "calendar") := rfl
  obtain ⟨items, hdeclares, hfunctions⟩ :=
    worldFunctions_inline (ofGroups_shop "calendar") hworld rfl
      fun items hitems => declares_shop.1 hitems ▸ apart_shop
  cases declares_shop.1 hdeclares
  exact ⟨_, hlist, ((hfunctions .imported "clock" _ List.mem_cons_self).2 _ hlist).1
    ("now", .function { results := [.name "u64"] }) List.mem_cons_self⟩

end Project

end ComponentAbi
