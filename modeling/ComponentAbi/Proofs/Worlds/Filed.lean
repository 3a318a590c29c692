import ComponentAbi.Proofs.Loading.Parts
import ComponentAbi.Proofs.Names.Distinct
import ComponentAbi.Proofs.Names.Order

/-!
# Worlds are found under their own names

In a store that was loaded, every world is filed under the package, version and name that it has
itself, and each version of a package is there once (`PackageStore.Filed`).
-/

namespace ComponentAbi

/-! ### What an insertion adds -/

namespace NameMap

variable {α : Type} {m later : NameMap α} {name : String} {value : α} {e : String × α}

theorem mem_insertEntry {entries : List (String × α)} (h : e ∈ insertEntry name value entries) :
    e = (name, value) ∨ e ∈ entries := by
  induction entries with
  | nil => exact .inl (by simpa [insertEntry] using h)
  | cons entry rest ih =>
    obtain ⟨other, old⟩ := entry
    rw [insertEntry] at h
    split at h
    · rcases List.mem_cons.1 h with h | h
      · exact .inl h
      · exact .inr (List.mem_cons_of_mem _ h)
    · split at h
      · rcases List.mem_cons.1 h with h | h
        · exact .inl h
        · exact .inr h
      · rcases List.mem_cons.1 h with rfl | h
        · exact .inr List.mem_cons_self
        · exact (ih h).imp_right (List.mem_cons_of_mem _)

theorem mem_insert (h : e ∈ (m.insert name value).entries) : e = (name, value) ∨ e ∈ m.entries :=
  mem_insertEntry h

theorem mem_merge (h : e ∈ (m.merge later).entries) : e ∈ later.entries ∨ e ∈ m.entries := by
  obtain ⟨entries⟩ := later
  simp only [merge] at h
  induction entries generalizing m with
  | nil => exact .inr h
  | cons entry rest ih =>
    rcases ih h with h | h
    · exact .inl (List.mem_cons_of_mem _ h)
    · rcases mem_insert h with rfl | h
      · exact .inl List.mem_cons_self
      · exact .inr h

theorem mem_of_find? (h : m.find? name = some value) : (name, value) ∈ m.entries :=
  List.lookup_eq_some_iff.1 h |>.elim fun _ h => h.elim fun _ h => by simp [h.1]

theorem find?_merge_of_notMem (h : ∀ e ∈ later.entries, e.1 ≠ name) :
    (m.merge later).find? name = m.find? name := by
  obtain ⟨entries⟩ := later
  simp only [merge] at *
  induction entries generalizing m with
  | nil => rfl
  | cons entry rest ih =>
    obtain ⟨hne, hrest⟩ := List.forall_mem_cons.1 h
    rw [List.foldl_cons, ih hrest, find?_insert, if_neg (Ne.symm hne)]

/-- What is added once is found. -/
theorem find?_merge_of_mem (hnodup : (later.entries.map (·.1)).Nodup)
    (h : (name, value) ∈ later.entries) : (m.merge later).find? name = some value := by
  obtain ⟨entries⟩ := later
  induction entries generalizing m with
  | nil => cases h
  | cons entry rest ih =>
    obtain ⟨hnew, hnodup⟩ := List.nodup_cons.1 hnodup
    rcases List.mem_cons.1 h with rfl | h
    · have hrest : ∀ e ∈ rest, e.1 ≠ name := fun e he heq => hnew (List.mem_map.2 ⟨e, he, heq⟩)
      exact (@find?_merge_of_notMem α _ ⟨rest⟩ name hrest).trans (by rw [find?_insert, if_pos rfl])
    · exact ih (m := m.insert entry.1 entry.2) hnodup h

end NameMap

namespace Package

variable {version : Option Version} {contents : PackageContents}
  {versions : List (Option Version × PackageContents)} {e : Option Version × PackageContents}

/-- An entry after an insertion is an old one, the new one, or both merged. -/
theorem mem_insertContents (h : e ∈ insertContents version contents versions) :
    e ∈ versions ∨ e = (version, contents) ∨
      ∃ old, (e.1, old) ∈ versions ∧ compareVersions version e.1 = .eq ∧
        e.2 = old.merge contents := by
  induction versions with
  | nil => exact .inr (.inl (by simpa [insertContents] using h))
  | cons entry rest ih =>
    obtain ⟨other, old⟩ := entry
    rw [insertContents] at h
    split at h
    · rename_i heq
      rcases List.mem_cons.1 h with rfl | h
      · exact .inr (.inr ⟨old, List.mem_cons_self, heq, rfl⟩)
      · exact .inl (List.mem_cons_of_mem _ h)
    · rcases List.mem_cons.1 h with h | h
      · exact .inr (.inl h)
      · exact .inl h
    · rcases List.mem_cons.1 h with rfl | h
      · exact .inl List.mem_cons_self
      · rcases ih h with h | h | ⟨old, hmem, heq, hmerge⟩
        · exact .inl (List.mem_cons_of_mem _ h)
        · exact .inr (.inl h)
        · exact .inr (.inr ⟨old, List.mem_cons_of_mem _ hmem, heq, hmerge⟩)

/-- Versions in ascending order. -/
def Ordered (versions : List (Option Version × PackageContents)) : Prop :=
  versions.Pairwise fun a b => compareVersions a.1 b.1 = .lt

theorem Ordered.insertContents (h : Ordered versions) :
    Ordered (insertContents version contents versions) := by
  induction versions with
  | nil => exact List.pairwise_singleton _ _
  | cons entry rest ih =>
    obtain ⟨other, old⟩ := entry
    obtain ⟨hfirst, hrest⟩ := List.pairwise_cons.1 h
    rw [Package.insertContents]
    split
    · exact List.pairwise_cons.2 ⟨hfirst, hrest⟩
    · rename_i hlt
      refine List.pairwise_cons.2 ⟨fun e he => ?_, h⟩
      rcases List.mem_cons.1 he with rfl | he
      · exact hlt
      · exact Std.TransCmp.lt_trans hlt (hfirst e he)
    · rename_i hgt
      refine List.pairwise_cons.2 ⟨fun e he => ?_, ih hrest⟩
      have hlt : compareVersions other version = .lt := Std.OrientedCmp.lt_of_gt hgt
      rcases mem_insertContents he with he | rfl | ⟨old, hold, -, -⟩
      · exact hfirst e he
      · exact hlt
      · exact hfirst (e.1, old) hold

end Package

namespace PackageStore

variable {name : PackageName} {version : Option Version} {contents : PackageContents}
  {packages : List Package} {p : Package}

/-- A package after an insertion is an old one, or the contents went into it. -/
theorem mem_insertPackage (h : p ∈ insertPackage name version contents packages) :
    p ∈ packages ∨ ∃ q : Package, (q ∈ packages ∨ q = { name }) ∧ q.name = name ∧
      p = q.insert version contents := by
  induction packages with
  | nil => exact .inr ⟨{ name }, .inr rfl, rfl, by simpa [insertPackage] using h⟩
  | cons q rest ih =>
    rw [insertPackage] at h
    split at h
    · rename_i heq
      rcases List.mem_cons.1 h with rfl | h
      · exact .inr ⟨q, .inl List.mem_cons_self, (Std.LawfulEqCmp.eq_of_compare heq).symm, rfl⟩
      · exact .inl (List.mem_cons_of_mem _ h)
    · rcases List.mem_cons.1 h with rfl | h
      · exact .inr ⟨{ name }, .inr rfl, rfl, rfl⟩
      · exact .inl h
    · rcases List.mem_cons.1 h with rfl | h
      · exact .inl List.mem_cons_self
      · rcases ih h with h | ⟨q, hq, hname, hp⟩
        · exact .inl (List.mem_cons_of_mem _ h)
        · exact .inr ⟨q, hq.imp_left (List.mem_cons_of_mem _), hname, hp⟩

end PackageStore

/-! ### Filing -/

/-- The world is filed under the names that it has itself. -/
structure World.FiledAs (w : World) (file : PackageName) (entry : Option Version) (key : String) :
    Prop where
  /-- Its name is the key. -/
  name : w.name = key
  /-- Its package has that name. -/
  package : w.package.name = file
  /-- Its package is of that version, whatever the spelling. -/
  version : Package.compareVersions w.package.version entry = .eq
  /-- Its package is told from the written form. -/
  plain : w.package.Plain

/-- Every version of a package is there once, and worlds are filed under their own names. -/
structure PackageStore.Filed (s : PackageStore) : Prop where
  /-- The versions of a package are in ascending order. -/
  ordered : ∀ p ∈ s.packages, Package.Ordered p.versions
  /-- Worlds are filed under their own names. -/
  worlds : ∀ p ∈ s.packages, ∀ e ∈ p.versions, ∀ w ∈ e.2.worlds.entries,
    w.2.FiledAs p.name e.1 w.1

namespace PackageStore

variable {s : PackageStore} {ref : PackageRef} {contents : PackageContents}

theorem filed_empty : Filed {} where
  ordered := by simp
  worlds := by simp

theorem Filed.insert (h : s.Filed) (hplain : ref.Plain)
    (hworlds : ∀ w ∈ contents.worlds.entries, w.2.name = w.1 ∧ w.2.package = ref) :
    (s.insert ref contents).Filed where
  ordered p hp := by
    rcases mem_insertPackage hp with hp | ⟨q, hq, -, rfl⟩
    · exact h.ordered p hp
    · rcases hq with hq | rfl
      · exact (h.ordered q hq).insertContents
      · exact Package.Ordered.insertContents List.Pairwise.nil
  worlds p hp e he w hw := by
    rcases mem_insertPackage hp with hp | ⟨q, hq, hname, rfl⟩
    · exact h.worlds p hp e he w hw
    · have hnew {w : String × World} (hw : w ∈ contents.worlds.entries)
          (heq : Package.compareVersions ref.version e.1 = .eq) :
          w.2.FiledAs q.name e.1 w.1 := by
        obtain ⟨hwname, hwpackage⟩ := hworlds w hw
        exact ⟨hwname, by rw [hwpackage, hname], by rwa [hwpackage], by rwa [hwpackage]⟩
      have hold {e : Option Version × PackageContents} (he : e ∈ q.versions)
          {w : String × World} (hw : w ∈ e.2.worlds.entries) : w.2.FiledAs q.name e.1 w.1 := by
        rcases hq with hq | rfl
        · exact h.worlds q hq e he w hw
        · cases he
      rcases Package.mem_insertContents he with he | rfl | ⟨old, he, heq, hmerge⟩
      · exact hold he hw
      · exact hnew hw Std.ReflCmp.compare_self
      · rw [hmerge] at hw
        rcases NameMap.mem_merge hw with hw | hw
        · exact hnew hw heq
        · exact hold he hw

end PackageStore

/-! ### Where a world is found -/

/-- In ascending order, only one entry is of a version. -/
theorem Package.contents?_of_mem {p : Package} (h : Ordered p.versions)
    {e : Option Version × PackageContents} (he : e ∈ p.versions) {version : Option Version}
    (hversion : compareVersions version e.1 = .eq) : p.contents? version = some e.2 := by
  obtain ⟨name, versions⟩ := p
  simp only [contents?] at *
  induction versions with
  | nil => cases he
  | cons entry rest ih =>
    obtain ⟨hfirst, hrest⟩ := List.pairwise_cons.1 h
    rcases List.mem_cons.1 he with rfl | he
    · simp [hversion]
    · have hgt : compareVersions version entry.1 = .gt := by
        rw [Std.TransCmp.congr_left hversion]
        exact Std.OrientedCmp.gt_of_lt (hfirst e he)
      rw [List.find?_cons_of_neg (by simp [hgt])]
      exact ih hrest he

namespace PackageStore

variable {s : PackageStore} {ref : PackageRef} {contents : PackageContents}

theorem exists_entry_of_contents? (h : s.contents? ref = some contents) :
    ∃ p ∈ s.packages, s.find? ref.name = some p ∧ ∃ e ∈ p.versions, e.2 = contents := by
  obtain ⟨p, hp, h⟩ := Option.bind_eq_some_iff.1 h
  refine ⟨p, List.mem_of_find?_eq_some hp, hp, ?_⟩
  have hexact {version : Option Version} (h : p.contents? version = some contents) :
      ∃ e ∈ p.versions, e.2 = contents := by
    obtain ⟨e, he, rfl⟩ := Option.map_eq_some_iff.1 h
    exact ⟨e, List.mem_of_find?_eq_some he, rfl⟩
  split at h
  · exact hexact h
  · rcases Option.or_eq_some_iff.1 h with h | ⟨-, h⟩
    · exact hexact h
    · obtain ⟨e, he, rfl⟩ := Option.map_eq_some_iff.1 h
      exact ⟨e, List.mem_of_getLast? he, rfl⟩

/-- The world is what its own names lead to. -/
structure Homed (s : PackageStore) (w : World) : Prop where
  /-- Its package, version and name lead to it. -/
  found : ∃ p contents, s.find? w.package.name = some p ∧
    p.contents? w.package.version = some contents ∧ contents.worlds.find? w.name = some w
  /-- Its package is told from the written form. -/
  plain : w.package.Plain

/-- A world that was filed under its own names and is found under any, is found under its own. -/
theorem Filed.homed (h : s.Filed) {name : String} {w : World}
    (hcontents : s.contents? ref = some contents) (hw : contents.worlds.find? name = some w) :
    s.Homed w := by
  obtain ⟨p, hmem, hp, e, he, rfl⟩ := exists_entry_of_contents? hcontents
  have hfiled := h.worlds p hmem e he _ (NameMap.mem_of_find? hw)
  have hname : p.name = ref.name := by simpa using List.find?_some hp
  refine ⟨⟨p, e.2, ?_, ?_, ?_⟩, hfiled.plain⟩
  · rw [hfiled.package, hname, hp]
  · exact Package.contents?_of_mem (h.ordered p hmem) he hfiled.version
  · rwa [hfiled.name]

theorem Homed.eq {w w' : World} (h : s.Homed w) (h' : s.Homed w') (hname : w.name = w'.name)
    (hpackage : w.package = w'.package) : w = w' := by
  obtain ⟨p, contents, hp, hcontents, hw⟩ := h.found
  obtain ⟨p', contents', hp', hcontents', hw'⟩ := h'.found
  rw [← hpackage] at hp' hcontents'
  rw [hp] at hp'
  cases hp'
  rw [hcontents] at hcontents'
  cases hcontents'
  rw [← hname, hw] at hw'
  exact Option.some.inj hw'

end PackageStore

/-! ### Loading files worlds under their own names -/

namespace LoadM

variable {p q : Project}

theorem name_of_gives_world {package : PackageRef} {name : String} {items : List Item} {w : World}
    (h : (world package name items).Gives p w q) : w.name = name ∧ w.package = package := by
  obtain ⟨parts, mid, -, h⟩ := gives_bind.1 h
  obtain ⟨type, mid, -, h⟩ := gives_bind.1 h
  obtain ⟨rfl, -⟩ := gives_pure.1 h
  exact ⟨rfl, rfl⟩

theorem worlds_of_gives_packageItems {package : PackageRef} {items : List Item}
    {c : PackageContents} (h : (packageItems package items).Gives p c q) :
    ∀ w ∈ c.worlds.entries, w.2.name = w.1 ∧ w.2.package = package := by
  let P (c : PackageContents) : Prop :=
    ∀ w ∈ c.worlds.entries, w.2.name = w.1 ∧ w.2.package = package
  refine gives_foldlM_invariant (P := P) (fun item c p c' q hc hgives => ?_)
    (fun w hw => absurd hw List.not_mem_nil) h
  unfold packageItem at hgives
  cases item with
  | world name items =>
    obtain ⟨w, mid, hw, hgives⟩ := gives_bind.1 hgives
    obtain ⟨rfl, -⟩ := gives_pure.1 hgives
    intro e he
    rcases NameMap.mem_insert he with rfl | he
    · exact name_of_gives_world hw
    · exact hc e he
  | _ =>
    obtain ⟨d, mid, -, hgives⟩ := gives_bind.1 hgives
    obtain ⟨rfl, -⟩ := gives_pure.1 hgives
    exact hc

end LoadM

namespace Project

theorem filed_of_adds {blocks : List PackageBlock} {p q : Project} (hp : p.store.Filed)
    (hplain : ∀ b ∈ blocks, b.package.Plain) (h : Adds blocks p q) : q.store.Filed := by
  induction blocks generalizing p with
  | nil =>
    rw [adds_nil.1 h]
    exact hp
  | cons b rest ih =>
    obtain ⟨part, hpart, hrest⟩ := adds_cons.1 h
    refine ih ?_ (fun b hb => hplain b (List.mem_cons_of_mem _ hb)) hrest
    refine hp.insert (hpart.package ▸ hplain b List.mem_cons_self) fun w hw => ?_
    obtain ⟨v, hv, rfl⟩ := List.mem_map.1 hw
    rw [hpart.package]
    exact LoadM.worlds_of_gives_packageItems hpart.gives v hv

end Project

/-! ### The packages of documents were read -/

theorem NestedPackage.plain_of_blocks {nested : NestedPackage} {bs : List PackageBlock}
    (h : nested.blocks = .ok bs) : ∀ b ∈ bs, b.package.Plain := by
  obtain ⟨package, hpackage, hbs⟩ := Except.bind_eq_ok.1 h
  cases hbs
  simpa using PackageRef.plain_of_parse (Except.mapError_eq_ok.1 hpackage)

theorem SourceFile.plain_of_blocks {package : Option PackageRef} {file : SourceFile}
    {bs : List PackageBlock} (hpackage : ∀ r ∈ package, r.Plain)
    (h : file.blocks package = .ok bs) :
    ∀ b ∈ bs, b.package.Plain := by
  obtain ⟨own, hown, h⟩ := Except.bind_eq_ok.1 h
  obtain ⟨nested, hnested, h⟩ := Except.bind_eq_ok.1 h
  cases h
  intro b hb
  rcases List.mem_append.1 hb with hb | hb
  · unfold ownBlocks at hown
    split at hown
    · cases hown
      cases hb
    · cases package with
      | none => cases hown
      | some package =>
        cases hown
        rw [List.mem_singleton.1 hb]
        exact hpackage package rfl
  · obtain ⟨bs, hbs, hb⟩ := List.mem_flatten.1 hb
    obtain ⟨n, -, hn⟩ := Except.exists_of_mem_mapM hnested hbs
    exact NestedPackage.plain_of_blocks hn b hb

theorem SourceGroup.plain_of_packageFrom {directory : String} {files : List SourceFile}
    {found package : Option PackageRef} (hfound : ∀ r ∈ found, r.Plain)
    (h : packageFrom directory found files = .ok package) : ∀ r ∈ package, r.Plain := by
  induction files generalizing found with
  | nil =>
    cases h
    exact hfound
  | cons file rest ih =>
    rw [packageFrom] at h
    split at h
    · exact ih hfound h
    · obtain ⟨ref, href, h⟩ := Except.bind_eq_ok.1 h
      cases found with
      | none =>
        refine ih (fun r hr => ?_) h
        cases hr
        exact PackageRef.plain_of_parse (Except.mapError_eq_ok.1 href)
      | some first =>
        simp only at h
        split at h
        · exact ih hfound h
        · cases h

theorem SourceGroup.plain_of_blocks {g : SourceGroup} {bs : List PackageBlock}
    (h : g.blocks = .ok bs) :
    ∀ b ∈ bs, b.package.Plain := by
  obtain ⟨package, hpackage, h⟩ := Except.bind_eq_ok.1 h
  obtain ⟨bss, hbss, h⟩ := Except.bind_eq_ok.1 h
  cases h
  intro b hb
  obtain ⟨bs, hbs, hb⟩ := List.mem_flatten.1 hb
  obtain ⟨file, -, hfile⟩ := Except.exists_of_mem_mapM hbss hbs
  exact SourceFile.plain_of_blocks (plain_of_packageFrom (by simp) hpackage) hfile b hb

/-- In a project that was loaded, worlds are filed under their own names. -/
theorem Project.filed_of_ofGroups {groups : List SourceGroup} {p : Project}
    (h : ofGroups groups = .ok p) : p.store.Filed := by
  obtain ⟨bss, hbss, hadds⟩ := ofGroups_eq_ok.1 h
  refine filed_of_adds PackageStore.filed_empty (fun b hb => ?_) hadds
  obtain ⟨bs, hbs, hb⟩ := List.mem_flatten.1 hb
  obtain ⟨g, -, hg⟩ := Except.exists_of_mem_mapM hbss hbs
  exact SourceGroup.plain_of_blocks hg b hb

end ComponentAbi
