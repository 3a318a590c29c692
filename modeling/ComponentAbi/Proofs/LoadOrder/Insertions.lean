import ComponentAbi.Proofs.LoadOrder.Stores
import ComponentAbi.Resolver
import Mathlib.Data.List.Induction

/-!
# What was inserted is found

A store is what was inserted into it. A reference with a version finds all that was inserted under
versions equal to it, merged in order; one without a version finds what was inserted without one, or
else what was inserted under the greatest version (`PackageStore.lookup_ofInsertions`). In what is
merged, the last definition of a name counts.
-/

namespace ComponentAbi

/-! ### Merging -/

namespace NameMap

variable {α : Type} {m later : NameMap α}

/-- The later definition of a name counts. -/
theorem find?_merge (h : later.Sorted) (name : String) :
    (m.merge later).find? name = (later.find? name).or (m.find? name) := by
  have hnodup : (later.entries.map (·.1)).Nodup := List.pairwise_map.2 (h.imp ne_of_lt)
  cases hfind : later.find? name with
  | some value => exact find?_merge_of_mem hnodup (mem_of_find? hfind)
  | none =>
    refine find?_merge_of_notMem fun e he heq => ?_
    have hnone := List.lookup_eq_none_iff.1 hfind e he
    simp [heq] at hnone

end NameMap

namespace PackageContents

variable {cs : List PackageContents} {c : PackageContents}

/-- Contents merged in order, if there are any. -/
def mergeAll : List PackageContents → Option PackageContents
  | [] => none
  | first :: rest => some (rest.foldl merge first)

theorem mergeAll_eq_none : mergeAll cs = none ↔ cs = [] := by
  cases cs <;> simp [mergeAll]

theorem mergeAll_concat : mergeAll (cs ++ [c]) =
    some (match mergeAll cs with
      | none => c
      | some before => before.merge c) := by
  cases cs with
  | nil => rfl
  | cons first rest => simp [mergeAll, List.foldl_append]

/-- After merging, a name stands for the last of its definitions. -/
theorem find?_mergeAll {α : Type} {names : PackageContents → NameMap α}
    (hmerge : ∀ c d, names (c.merge d) = (names c).merge (names d))
    (hsorted : ∀ c ∈ cs, (names c).Sorted) (h : mergeAll cs = some c) (name : String) :
    (names c).find? name = (cs.filterMap fun c => (names c).find? name).getLast? := by
  induction cs using List.reverseRecOn generalizing c with
  | nil => cases h
  | append_singleton before last ih =>
    obtain ⟨hbefore, hlast⟩ := List.forall_mem_append.1 hsorted
    have hlast := hlast last List.mem_cons_self
    rw [mergeAll_concat] at h
    cases h
    rw [List.filterMap_append]
    cases hall : mergeAll before with
    | none =>
      rw [mergeAll_eq_none.1 hall]
      cases hfind : (names last).find? name <;> simp [hfind]
    | some merged =>
      simp only [hmerge, NameMap.find?_merge hlast, ih hbefore hall]
      cases hfind : (names last).find? name <;> simp [hfind]

end PackageContents

/-! ### One insertion -/

namespace Package

variable {v w : Option Version} {c : PackageContents}
  {versions : List (Option Version × PackageContents)}

theorem contents?_cons {name : PackageName} {e : Option Version × PackageContents} :
    contents? ⟨name, e :: versions⟩ w =
      if compareVersions w e.1 = .eq then some e.2 else contents? ⟨name, versions⟩ w := by
  rw [contents?, List.find?_cons]
  by_cases h : compareVersions w e.1 = .eq
  · simp [h]
  · rw [beq_eq_false_iff_ne.2 h, if_neg h]
    rfl

theorem contents?_eq_none_of_lt {name : PackageName}
    (h : ∀ e ∈ versions, compareVersions v e.1 = .lt) : contents? ⟨name, versions⟩ v = none := by
  rw [contents?, Option.map_eq_none_iff, List.find?_eq_none]
  intro e he
  simp [h e he]

/-- Contents that are inserted come after what the version has. -/
theorem contents?_insert (p : Package) (h : Ordered p.versions) :
    (p.insert v c).contents? w =
      if compareVersions w v = .eq then
        some (match p.contents? v with
          | none => c
          | some before => before.merge c)
      else p.contents? w := by
  obtain ⟨name, versions⟩ := p
  simp only [insert] at *
  induction versions with
  | nil => rw [insertContents, contents?_cons]; rfl
  | cons e rest ih =>
    obtain ⟨o, before⟩ := e
    obtain ⟨hfirst, hrest⟩ := List.pairwise_cons.1 h
    cases hvo : compareVersions v o with
    | lt =>
      -- The version comes before all that are there, so it is new.
      have hnone : contents? ⟨name, (o, before) :: rest⟩ v = none :=
        contents?_eq_none_of_lt (List.forall_mem_cons.2
          ⟨hvo, fun e he => Std.TransCmp.lt_trans hvo (hfirst e he)⟩)
      rw [insertContents_of_lt hvo, contents?_cons, hnone]
    | eq =>
      rw [insertContents_of_eq hvo, contents?_cons, contents?_cons, contents?_cons, if_pos hvo,
        Std.TransCmp.congr_right hvo]
      split <;> rfl
    | gt =>
      have hne : compareVersions v o ≠ .eq := by simp [hvo]
      rw [insertContents_of_gt hvo, contents?_cons, contents?_cons, contents?_cons, ih hrest,
        if_neg hne]
      -- No version is equal to both.
      by_cases hwo : compareVersions w o = .eq
      · have hwv : compareVersions w v ≠ .eq := by
          rw [Std.TransCmp.congr_left hwo, Std.OrientedCmp.lt_of_gt hvo]
          decide
        rw [if_pos hwo, if_neg hwv, if_pos hwo]
      · rw [if_neg hwo, if_neg hwo]

end Package

namespace PackageStore

variable {name n : PackageName} {v : Option Version} {c : PackageContents} {packages : List Package}

theorem find?_cons {p : Package} :
    find? ⟨p :: packages⟩ n = if p.name = n then some p else find? ⟨packages⟩ n := by
  rw [find?, List.find?_cons]
  by_cases h : p.name = n
  · simp [h]
  · rw [beq_eq_false_iff_ne.2 h, if_neg h]
    rfl

theorem find?_eq_none_of_lt (h : ∀ p ∈ packages, name.compare p.name = .lt) :
    find? ⟨packages⟩ name = none := by
  rw [find?, List.find?_eq_none]
  intro p hp heq
  have hself : name.compare name = .eq := Std.ReflCmp.compare_self
  have hlt := h p hp
  rw [eq_of_beq heq, hself] at hlt
  cases hlt

/-- Contents go into the package of their name, which is new if there is none. -/
theorem find?_insertPackage
    (h : packages.Pairwise fun p q => p.name.compare q.name = .lt) :
    find? ⟨insertPackage name v c packages⟩ n =
      if n = name then some (((find? ⟨packages⟩ name).getD { name }).insert v c)
      else find? ⟨packages⟩ n := by
  induction packages with
  | nil =>
    rw [insertPackage, find?_cons]
    exact if_congr eq_comm rfl rfl
  | cons p rest ih =>
    obtain ⟨hfirst, hrest⟩ := List.pairwise_cons.1 h
    cases hname : name.compare p.name with
    | lt =>
      have hnone : find? ⟨p :: rest⟩ name = none :=
        find?_eq_none_of_lt (List.forall_mem_cons.2
          ⟨hname, fun q hq => Std.TransCmp.lt_trans hname (hfirst q hq)⟩)
      rw [insertPackage_of_lt hname, find?_cons, hnone]
      exact if_congr eq_comm rfl rfl
    | eq =>
      obtain rfl := Std.LawfulEqCmp.eq_of_compare hname
      have hn : (p.insert v c).name = n ↔ n = p.name := eq_comm
      rw [insertPackage_of_eq hname, find?_cons, find?_cons, find?_cons, if_pos rfl]
      by_cases h : n = p.name
      · rw [if_pos (hn.2 h), if_pos h]
        rfl
      · rw [if_neg (mt hn.1 h), if_neg h, if_neg (Ne.symm h)]
    | gt =>
      have hne : p.name ≠ name := by
        rintro rfl
        have hself : p.name.compare p.name = .eq := Std.ReflCmp.compare_self
        rw [hself] at hname
        cases hname
      rw [insertPackage_of_gt hname, find?_cons, find?_cons, find?_cons, ih hrest, if_neg hne]
      by_cases hn : p.name = n
      · rw [if_pos hn, if_pos hn, if_neg (hn ▸ hne)]
      · rw [if_neg hn, if_neg hn]

/-! ### All insertions -/

variable {insertions : List (PackageRef × PackageContents)} {ref : PackageRef} {s : PackageStore}

/-- The store after contents are inserted one after the other. -/
def ofInsertions (insertions : List (PackageRef × PackageContents)) : PackageStore :=
  insertions.foldl (fun s x => s.insert x.1 x.2) {}

/-- What is inserted for a package name under versions equal to the given one, in order. Build
metadata does not tell versions apart. -/
def inserted (insertions : List (PackageRef × PackageContents)) (name : PackageName)
    (version : Option Version) : List PackageContents :=
  (insertions.filter fun x =>
    x.1.name == name && Package.compareVersions version x.1.version == .eq).map (·.2)

/-- The version that a reference asks for. Without one, that is none if contents were inserted
without a version, and the greatest version otherwise. -/
inductive Asks (insertions : List (PackageRef × PackageContents)) (ref : PackageRef) :
    Option Version → Prop
  /-- The version of the reference. -/
  | exact {v : Version} (h : ref.version = some v) : Asks insertions ref (some v)
  /-- No version. -/
  | unversioned (h : ref.version = none) (hsome : inserted insertions ref.name none ≠ []) :
    Asks insertions ref none
  /-- The greatest version. -/
  | greatest {v : Version} (h : ref.version = none) (hnone : inserted insertions ref.name none = [])
    (hv : ∃ x ∈ insertions, x.1.name = ref.name ∧ x.1.version = some v)
    (hmax : ∀ x ∈ insertions, x.1.name = ref.name → ∀ w, x.1.version = some w →
      w.compare v ≠ .gt) : Asks insertions ref (some v)

/-- The store has exactly what was inserted. -/
structure Holds (s : PackageStore) (insertions : List (PackageRef × PackageContents)) : Prop where
  /-- Packages are in the order of their names. -/
  packages : s.packages.Pairwise fun p q => p.name.compare q.name = .lt
  /-- Versions are in order. -/
  versions : ∀ p ∈ s.packages, Package.Ordered p.versions
  /-- Every version is one that was inserted. -/
  origin : ∀ p ∈ s.packages, ∀ e ∈ p.versions,
    ∃ x ∈ insertions, x.1.name = p.name ∧ x.1.version = e.1
  /-- The contents of a version are all that was inserted under it. -/
  contents : ∀ name version, ((s.find? name).bind (·.contents? version)) =
    PackageContents.mergeAll (inserted insertions name version)

theorem holds_empty : Holds {} [] where
  packages := .nil
  versions _ h := by cases h
  origin _ h := by cases h
  contents _ _ := rfl

theorem inserted_concat {x : PackageRef × PackageContents} {version : Option Version} :
    inserted (insertions ++ [x]) name version = inserted insertions name version ++
      if x.1.name = name ∧ Package.compareVersions version x.1.version = .eq then [x.2]
      else [] := by
  rw [inserted, List.filter_append, List.map_append]
  congr 1
  by_cases h : x.1.name = name ∧ Package.compareVersions version x.1.version = .eq <;>
    simp [h]

theorem pairwise_insertPackage (h : packages.Pairwise fun p q => p.name.compare q.name = .lt) :
    (insertPackage name v c packages).Pairwise fun p q => p.name.compare q.name = .lt := by
  induction packages with
  | nil => exact List.pairwise_singleton _ _
  | cons p rest ih =>
    obtain ⟨hfirst, hrest⟩ := List.pairwise_cons.1 h
    cases hname : name.compare p.name with
    | lt =>
      rw [insertPackage_of_lt hname]
      exact List.pairwise_cons.2 ⟨List.forall_mem_cons.2
        ⟨hname, fun q hq => Std.TransCmp.lt_trans hname (hfirst q hq)⟩, h⟩
    | eq =>
      rw [insertPackage_of_eq hname]
      exact List.pairwise_cons.2 ⟨hfirst, hrest⟩
    | gt =>
      rw [insertPackage_of_gt hname]
      refine List.pairwise_cons.2 ⟨fun q hq => ?_, ih hrest⟩
      rcases mem_insertPackage hq with hq | ⟨r, -, hr, rfl⟩
      · exact hfirst q hq
      · change p.name.compare r.name = .lt
        rw [hr]
        exact Std.OrientedCmp.lt_of_gt hname

/-- What is inserted comes after what was inserted before under an equal version. -/
theorem Holds.insert (h : s.Holds insertions) (ref : PackageRef) (c : PackageContents) :
    (s.insert ref c).Holds (insertions ++ [(ref, c)]) where
  packages := pairwise_insertPackage h.packages
  versions p hp := by
    rcases mem_insertPackage hp with hp | ⟨q, hq | rfl, -, rfl⟩
    · exact h.versions p hp
    · exact (h.versions q hq).insertContents
    · exact Package.Ordered.insertContents .nil
  origin p hp e he := by
    have hold {p : Package} (hp : p ∈ s.packages) {e : Option Version × PackageContents}
        (he : e ∈ p.versions) :
        ∃ x ∈ insertions ++ [(ref, c)], x.1.name = p.name ∧ x.1.version = e.1 :=
      let ⟨x, hx, horigin⟩ := h.origin p hp e he
      ⟨x, List.mem_append_left _ hx, horigin⟩
    rcases mem_insertPackage hp with hp | ⟨q, hq, hname, rfl⟩
    · exact hold hp he
    · rcases Package.mem_insertContents he with he | rfl | ⟨old, he, -, -⟩
      · rcases hq with hq | rfl
        · exact hold hq he
        · cases he
      · exact ⟨(ref, c), List.mem_append_right _ List.mem_cons_self, hname.symm, rfl⟩
      · rcases hq with hq | rfl
        · exact hold (e := (e.1, old)) hq he
        · cases he
  contents name version := by
    have hordered : Package.Ordered ((s.find? ref.name).getD { name := ref.name }).versions := by
      cases hfind : s.find? ref.name with
      | none => exact .nil
      | some p => exact h.versions p (List.mem_of_find?_eq_some hfind)
    have hcontents (version : Option Version) :
        ((s.find? ref.name).getD { name := ref.name }).contents? version =
          PackageContents.mergeAll (inserted insertions ref.name version) := by
      rw [← h.contents]
      cases s.find? ref.name <;> rfl
    rw [inserted_concat, PackageStore.insert, find?_insertPackage h.packages]
    by_cases hname : name = ref.name
    · subst hname
      rw [if_pos rfl, Option.bind_some, Package.contents?_insert _ hordered]
      by_cases hversion : Package.compareVersions version ref.version = .eq
      · rw [if_pos hversion, if_pos ⟨rfl, hversion⟩, PackageContents.mergeAll_concat,
          ← Package.contents?_congr hversion, hcontents]
      · rw [if_neg hversion, if_neg fun hboth => hversion hboth.2, List.append_nil, hcontents]
    · rw [if_neg hname, if_neg fun hboth => hname hboth.1.symm, List.append_nil, h.contents]

theorem holds_ofInsertions (insertions : List (PackageRef × PackageContents)) :
    (ofInsertions insertions).Holds insertions := by
  induction insertions using List.reverseRecOn with
  | nil => exact holds_empty
  | append_singleton before x ih =>
    rw [ofInsertions, List.foldl_append]
    exact ih.insert x.1 x.2

/-! ### Lookups -/

variable {version : Option Version} {contents : PackageContents}

/-- In ascending order, the last version comes after all others. -/
theorem eq_or_lt_of_getLast? {versions : List (Option Version × PackageContents)}
    {e last : Option Version × PackageContents} (h : Package.Ordered versions)
    (hlast : versions.getLast? = some last) (he : e ∈ versions) :
    e = last ∨ Package.compareVersions e.1 last.1 = .lt := by
  obtain ⟨front, rfl⟩ := List.getLast?_eq_some_iff.1 hlast
  rcases List.mem_append.1 he with he | he
  · exact .inr ((List.pairwise_append.1 h).2.2 e he last List.mem_cons_self)
  · exact .inl (List.mem_singleton.1 he)

theorem inserted_ne_nil : inserted insertions name version ≠ [] ↔
    ∃ x ∈ insertions, x.1.name = name ∧ Package.compareVersions version x.1.version = .eq := by
  simp [inserted, List.filter_eq_nil_iff]

/-- What was inserted is there. -/
theorem Holds.exists_entry (h : s.Holds insertions) {x : PackageRef × PackageContents}
    (hx : x ∈ insertions) : ∃ p, s.find? x.1.name = some p ∧
      ∃ e ∈ p.versions, Package.compareVersions x.1.version e.1 = .eq := by
  have hne : PackageContents.mergeAll (inserted insertions x.1.name x.1.version) ≠ none :=
    mt PackageContents.mergeAll_eq_none.1
      (inserted_ne_nil.2 ⟨x, hx, rfl, Std.ReflCmp.compare_self⟩)
  rw [← h.contents] at hne
  obtain ⟨c, hc⟩ := Option.ne_none_iff_exists'.1 hne
  obtain ⟨p, hp, hc⟩ := Option.bind_eq_some_iff.1 hc
  obtain ⟨e, he, -⟩ := Option.map_eq_some_iff.1 hc
  exact ⟨p, hp, e, List.mem_of_find?_eq_some he, by simpa using List.find?_some he⟩

/-- If nothing was inserted without a version, the last version is the greatest. -/
theorem Holds.asks_last (h : s.Holds insertions) (href : ref.version = none)
    (hnone : inserted insertions ref.name none = []) {p : Package}
    (hp : s.find? ref.name = some p) {last : Option Version × PackageContents}
    (hlast : p.versions.getLast? = some last) : Asks insertions ref last.1 := by
  have hmem := List.mem_of_find?_eq_some hp
  have hname : p.name = ref.name := by simpa using List.find?_some hp
  obtain ⟨x, hx, hxname, hxversion⟩ := h.origin p hmem last (List.mem_of_getLast? hlast)
  have hversion (y : PackageRef × PackageContents) (hy : y ∈ insertions)
      (hyname : y.1.name = ref.name) : ∃ v, y.1.version = some v := by
    refine Option.ne_none_iff_exists'.1 fun hyversion => ?_
    refine inserted_ne_nil.2 ⟨y, hy, hyname, ?_⟩ hnone
    rw [hyversion]
    rfl
  obtain ⟨v, hv⟩ := hversion x hx (hxname.trans hname)
  rw [← hxversion, hv]
  refine .greatest href hnone ⟨x, hx, hxname.trans hname, hv⟩ fun y hy hyname w hw hgt => ?_
  obtain ⟨q, hq, e, he, hye⟩ := h.exists_entry hy
  rw [hyname, hp] at hq
  cases hq
  have hle : Package.compareVersions e.1 last.1 ≠ .gt := by
    rcases eq_or_lt_of_getLast? (h.versions p hmem) hlast he with rfl | hlt
    · have hself : Package.compareVersions e.1 e.1 = .eq := Std.ReflCmp.compare_self
      simp [hself]
    · simp [hlt]
  rw [← Std.TransCmp.congr_left hye, hw, ← hxversion, hv] at hle
  exact hle hgt

/-- Only one version is asked for, however it is spelled. -/
theorem Asks.unique {version' : Option Version} (h : Asks insertions ref version)
    (h' : Asks insertions ref version') : Package.compareVersions version version' = .eq := by
  cases h with
  | exact h =>
    cases h' with
    | exact h' =>
      cases h.symm.trans h'
      exact Std.ReflCmp.compare_self
    | unversioned h' | greatest h' => cases h.symm.trans h'
  | unversioned h hsome =>
    cases h' with
    | exact h' => cases h.symm.trans h'
    | unversioned => rfl
    | greatest _ hnone => exact absurd hnone hsome
  | @greatest v h hnone hv hmax =>
    cases h' with
    | exact h' => cases h.symm.trans h'
    | unversioned _ hsome => exact absurd hnone hsome
    | @greatest w _ _ hw hmax' =>
      obtain ⟨x, hx, hxname, hxversion⟩ := hv
      obtain ⟨y, hy, hyname, hyversion⟩ := hw
      have hle : v.compare w ≠ .gt := hmax' x hx hxname v hxversion
      have hge : w.compare v ≠ .gt := hmax y hy hyname w hyversion
      change v.compare w = .eq
      cases hvw : v.compare w with
      | eq => rfl
      | lt => exact absurd (Std.OrientedCmp.gt_of_lt hvw) hge
      | gt => exact absurd hvw hle

/-- A reference finds what was inserted under the version that it asks for. -/
theorem Holds.contents?_of_asks (h : s.Holds insertions) (hasks : Asks insertions ref version) :
    s.contents? ref = PackageContents.mergeAll (inserted insertions ref.name version) := by
  rw [← h.contents]
  have hnone := h.contents ref.name none
  obtain ⟨name, asked⟩ := ref
  cases hasks with
  | exact href =>
    cases href
    rfl
  | unversioned href hsome =>
    cases href
    obtain ⟨c, hc⟩ := Option.ne_none_iff_exists'.1 (mt PackageContents.mergeAll_eq_none.1 hsome)
    rw [hc] at hnone
    obtain ⟨p, hp, hpc⟩ := Option.bind_eq_some_iff.1 hnone
    change (s.find? name).bind _ = (s.find? name).bind _
    rw [hp, Option.bind_some, Option.bind_some, hpc]
    rfl
  | @greatest v href hempty hv hmax =>
    cases href
    obtain ⟨x, hx, hxname, hxversion⟩ := hv
    obtain ⟨p, hp, e, he, hxe⟩ := h.exists_entry hx
    rw [hxname] at hp
    obtain ⟨last, hlast⟩ := Option.ne_none_iff_exists'.1
      (mt List.getLast?_eq_none_iff.1 (List.ne_nil_of_mem he))
    -- The last version is the one that is asked for.
    have hsame := (Asks.greatest rfl hempty ⟨x, hx, hxname, hxversion⟩ hmax).unique
      (h.asks_last rfl hempty hp hlast)
    have hcontents := Package.contents?_of_mem (h.versions p (List.mem_of_find?_eq_some hp))
      (List.mem_of_getLast? hlast) hsame
    rw [hempty] at hnone
    change (s.find? name).bind _ = (s.find? name).bind _
    rw [hp] at hnone ⊢
    rw [Option.bind_some] at hnone
    rw [Option.bind_some, Option.bind_some, hcontents, hnone, Package.latest?, hlast]
    rfl

/-- If the package has a version, one is asked for. -/
theorem Holds.exists_asks (h : s.Holds insertions) {p : Package} (hp : s.find? ref.name = some p)
    {e : Option Version × PackageContents} (he : e ∈ p.versions) :
    ∃ version, Asks insertions ref version := by
  cases href : ref.version with
  | some v => exact ⟨_, .exact href⟩
  | none =>
    by_cases hnone : inserted insertions ref.name none = []
    · obtain ⟨last, hlast⟩ := Option.ne_none_iff_exists'.1
        (mt List.getLast?_eq_none_iff.1 (List.ne_nil_of_mem he))
      exact ⟨_, h.asks_last href hnone hp hlast⟩
    · exact ⟨_, .unversioned href hnone⟩

/-- Without a version, what is asked for was inserted. -/
theorem Asks.inserted_ne_nil (h : Asks insertions ref version) (href : ref.version = none) :
    inserted insertions ref.name version ≠ [] := by
  cases h with
  | exact h => cases href.symm.trans h
  | unversioned _ hsome => exact hsome
  | greatest _ _ hv _ =>
    obtain ⟨x, hx, hname, hversion⟩ := hv
    refine PackageStore.inserted_ne_nil.2 ⟨x, hx, hname, ?_⟩
    rw [hversion]
    exact Std.ReflCmp.compare_self

theorem Holds.contents?_eq_some (h : s.Holds insertions) : s.contents? ref = some contents ↔
    ∃ version, Asks insertions ref version ∧
      PackageContents.mergeAll (inserted insertions ref.name version) = some contents := by
  constructor
  · intro hfound
    obtain ⟨p, -, hp, e, he, -⟩ := exists_entry_of_contents? hfound
    obtain ⟨version, hasks⟩ := h.exists_asks hp he
    exact ⟨version, hasks, (h.contents?_of_asks hasks).symm.trans hfound⟩
  · rintro ⟨version, hasks, hmerged⟩
    exact (h.contents?_of_asks hasks).trans hmerged

theorem Holds.contents?_eq_none (h : s.Holds insertions) : s.contents? ref = none ↔
    ∀ x ∈ insertions, x.1.name = ref.name →
      ∃ v, ref.version = some v ∧ Package.compareVersions (some v) x.1.version ≠ .eq := by
  constructor
  · intro hmissing x hx hname
    obtain ⟨p, hp, e, he, -⟩ := h.exists_entry hx
    rw [hname] at hp
    obtain ⟨version, hasks⟩ := h.exists_asks hp he
    have hempty : inserted insertions ref.name version = [] :=
      PackageContents.mergeAll_eq_none.1 ((h.contents?_of_asks hasks).symm.trans hmissing)
    cases href : ref.version with
    | none => exact absurd hempty (hasks.inserted_ne_nil href)
    | some v =>
      refine ⟨v, rfl, fun heq => ?_⟩
      refine PackageStore.inserted_ne_nil.2 ⟨x, hx, hname, ?_⟩ hempty
      exact Std.TransCmp.eq_trans (hasks.unique (.exact href)) heq
  · intro hother
    refine Option.eq_none_iff_forall_ne_some.2 fun c hc => ?_
    obtain ⟨version, hasks, hmerged⟩ := h.contents?_eq_some.1 hc
    have hne : inserted insertions ref.name version ≠ [] := by
      rintro hempty
      rw [hempty] at hmerged
      cases hmerged
    obtain ⟨x, hx, hname, hversion⟩ := PackageStore.inserted_ne_nil.1 hne
    obtain ⟨v, href, hvx⟩ := hother x hx hname
    exact hvx (Std.TransCmp.eq_trans ((Asks.exact href).unique hasks) hversion)

end PackageStore

/-- Every name stands for the last of its definitions. -/
structure PackageContents.LastOf (c : PackageContents) (all : List PackageContents) : Prop where
  /-- Types. -/
  types : ∀ name, c.definitions.types.find? name =
    (all.filterMap (·.definitions.types.find? name)).getLast?
  /-- Interfaces. -/
  interfaces : ∀ name, c.definitions.interfaces.find? name =
    (all.filterMap (·.definitions.interfaces.find? name)).getLast?
  /-- Worlds. -/
  worlds : ∀ name, c.worlds.find? name = (all.filterMap (·.worlds.find? name)).getLast?

theorem PackageContents.lastOf_mergeAll {cs : List PackageContents} {c : PackageContents}
    (hsorted : ∀ c ∈ cs, c.Sorted) (h : mergeAll cs = some c) : c.LastOf cs where
  types := find?_mergeAll (fun _ _ => rfl) (fun c hc => (hsorted c hc).types) h
  interfaces := find?_mergeAll (fun _ _ => rfl) (fun c hc => (hsorted c hc).interfaces) h
  worlds := find?_mergeAll (fun _ _ => rfl) (fun c hc => (hsorted c hc).worlds) h

namespace PackageStore

/-- After any insertions, a reference finds what was inserted under the version that it asks for,
merged in order, so that the last definition of a name counts. It finds no package if and only if
nothing was inserted under that version, or for a reference without one, under any. -/
theorem lookup_ofInsertions (insertions : List (PackageRef × PackageContents))
    (hsorted : ∀ x ∈ insertions, x.2.Sorted) (ref : PackageRef) :
    (∀ c, (ofInsertions insertions).lookup ref = .ok c ↔ ∃ version, Asks insertions ref version ∧
      PackageContents.mergeAll (inserted insertions ref.name version) = some c) ∧
    (∀ e, (ofInsertions insertions).lookup ref = .error e ↔
      e = .unknownPackage ref.toText ∧ ∀ x ∈ insertions, x.1.name = ref.name →
        ∃ v, ref.version = some v ∧ Package.compareVersions (some v) x.1.version ≠ .eq) ∧
    ∀ c version, (ofInsertions insertions).lookup ref = .ok c → Asks insertions ref version →
      c.LastOf (inserted insertions ref.name version) := by
  have hholds := holds_ofInsertions insertions
  have hok (c : PackageContents) : (ofInsertions insertions).lookup ref = .ok c ↔
      (ofInsertions insertions).contents? ref = some c := by
    rw [PackageStore.lookup]
    cases (ofInsertions insertions).contents? ref <;> simp
  refine ⟨fun c => (hok c).trans hholds.contents?_eq_some, fun e => ?_,
    fun c version hc hasks => ?_⟩
  · rw [← hholds.contents?_eq_none, PackageStore.lookup]
    cases (ofInsertions insertions).contents? ref <;> simp [eq_comm]
  · have hmerged := (hholds.contents?_of_asks hasks).symm.trans ((hok c).1 hc)
    refine PackageContents.lastOf_mergeAll (fun d hd => ?_) hmerged
    obtain ⟨x, hx, rfl⟩ := List.mem_map.1 hd
    exact hsorted x (List.mem_of_mem_filter hx)

/-- The package of the example, in a version with build metadata. -/
def geoVersion (minor : UInt64) (build : String) : PackageRef :=
  { name := { namespaces := ["ns"], path := ["geo"] }
    version := some { major := 1, minor, patch := 0, build } }

/-- One version in two spellings, and a later one in between. -/
def respelled : List (PackageRef × PackageContents) :=
  [(geoVersion 0 "a", { definitions := { types := ⟨[("line", ⟨0⟩), ("point", ⟨1⟩)]⟩ } }),
    (geoVersion 1 "", { definitions := { types := ⟨[("point", ⟨2⟩)]⟩ } }),
    (geoVersion 0 "b", { definitions := { types := ⟨[("point", ⟨3⟩)]⟩ } })]

theorem sorted_respelled : ∀ x ∈ respelled, x.2.Sorted := by
  simp only [respelled, List.forall_mem_cons]
  have htypes {types : NameMap TypeId} (h : types.Sorted) :
      PackageContents.Sorted { definitions := { types } } :=
    ⟨.nil, h, .nil⟩
  have hline : "line" < "point" := by decide
  exact ⟨htypes (List.pairwise_pair.2 hline), htypes (List.pairwise_singleton _ _),
    htypes (List.pairwise_singleton _ _), fun _ h => absurd h List.not_mem_nil⟩

theorem lookup_ofInsertions_respelled : (∀ x ∈ respelled, x.2.Sorted) ∧
    ∃ c, (ofInsertions respelled).lookup (geoVersion 0 "c") = .ok c ∧
      c.definitions.types.find? "line" = some ⟨0⟩ ∧
      c.definitions.types.find? "point" = some ⟨3⟩ := by
  obtain ⟨hok, -, hlast⟩ := lookup_ofInsertions respelled sorted_respelled (geoVersion 0 "c")
  have hfound := (hok _).2 ⟨_, .exact rfl, rfl⟩
  have htypes := (hlast _ _ hfound (.exact rfl)).types
  exact ⟨sorted_respelled, _, hfound, htypes "line", htypes "point"⟩

end PackageStore

end ComponentAbi
