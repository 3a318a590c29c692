import ComponentAbi.Proofs.Worlds.Filed
import Mathlib.Data.List.Forall2
import Mathlib.Data.String.Basic

/-!
# The order of insertions

Definitions of different names can be added to a package in any order: nothing but the order of its
`use` declarations and the spelling of its versions depends on it (`PackageStore.insert_comm`). Both
do not matter to any lookup.
-/

namespace ComponentAbi

/-! ### Maps -/

namespace NameMap

variable {α : Type} {m later : NameMap α} {name other : String} {value old : α}
  {entries rest : List (String × α)}

theorem insertEntry_of_lt (h : name < other) :
    insertEntry name value ((other, old) :: rest) = (name, value) :: (other, old) :: rest := by
  rw [insertEntry, if_neg h.ne, if_pos h]

theorem insertEntry_self :
    insertEntry name value ((name, old) :: rest) = (name, value) :: rest := by
  rw [insertEntry, if_pos rfl]

theorem insertEntry_of_gt (h : other < name) :
    insertEntry name value ((other, old) :: rest) =
      (other, old) :: insertEntry name value rest := by
  rw [insertEntry, if_neg h.ne', if_neg h.asymm]

theorem insertEntry_comm_of_lt {name' : String} {value' : α} (h : name < name')
    (entries : List (String × α)) :
    insertEntry name' value' (insertEntry name value entries) =
      insertEntry name value (insertEntry name' value' entries) := by
  induction entries with
  | nil => rw [insertEntry, insertEntry, insertEntry_of_gt h, insertEntry_of_lt h, insertEntry]
  | cons entry rest ih =>
    obtain ⟨other, old⟩ := entry
    rcases lt_trichotomy name other with hlt | rfl | hgt
    · rw [insertEntry_of_lt hlt, insertEntry_of_gt h]
      -- The greater name goes after the smaller one, wherever that is.
      rcases lt_trichotomy name' other with hlt' | rfl | hgt'
      · rw [insertEntry_of_lt hlt', insertEntry_of_lt h]
      · rw [insertEntry_self, insertEntry_of_lt h]
      · rw [insertEntry_of_gt hgt', insertEntry_of_lt hlt]
    · rw [insertEntry_self, insertEntry_of_gt h, insertEntry_of_gt h, insertEntry_self]
    · rw [insertEntry_of_gt hgt, insertEntry_of_gt (hgt.trans h), insertEntry_of_gt (hgt.trans h),
        insertEntry_of_gt hgt, ih]

theorem insert_comm {name' : String} {value' : α} (h : name ≠ name') :
    (m.insert name value).insert name' value' = (m.insert name' value').insert name value := by
  rcases lt_or_gt_of_ne h with h | h
  · exact congrArg mk (insertEntry_comm_of_lt h _)
  · exact congrArg mk (insertEntry_comm_of_lt h _).symm

/-- The map has an entry of the name. -/
def HasKey (m : NameMap α) (name : String) : Prop :=
  ∃ value, (name, value) ∈ m.entries

theorem merge_insert (h : ¬later.HasKey name) :
    (m.insert name value).merge later = (m.merge later).insert name value := by
  obtain ⟨entries⟩ := later
  simp only [merge]
  induction entries generalizing m with
  | nil => rfl
  | cons entry rest ih =>
    have hne : name ≠ entry.1 := fun heq => h ⟨entry.2, by rw [heq]; exact List.mem_cons_self⟩
    have hrest : ¬(NameMap.mk rest).HasKey name := by
      rintro ⟨v, hv⟩
      exact h ⟨v, List.mem_cons_of_mem _ hv⟩
    rw [List.foldl_cons, List.foldl_cons, insert_comm hne]
    exact ih hrest

/-- Maps without a common name are merged in any order. -/
theorem merge_comm {later' : NameMap α} (h : ∀ name, later.HasKey name → ¬later'.HasKey name) :
    (m.merge later).merge later' = (m.merge later').merge later := by
  obtain ⟨entries⟩ := later'
  induction entries generalizing m with
  | nil => rfl
  | cons entry rest ih =>
    have hentry : ¬later.HasKey entry.1 := fun hkey => h _ hkey ⟨entry.2, List.mem_cons_self⟩
    have hrest : ∀ name, later.HasKey name → ¬(NameMap.mk rest).HasKey name :=
      fun name hkey ⟨v, hv⟩ => h name hkey ⟨v, List.mem_cons_of_mem _ hv⟩
    exact (congrArg (merge · ⟨rest⟩) (merge_insert hentry).symm).trans (ih hrest)

/-- The entries are in ascending order. -/
def Sorted (m : NameMap α) : Prop :=
  m.entries.Pairwise fun e f => e.1 < f.1

theorem Sorted.insert (h : m.Sorted) : (m.insert name value).Sorted := by
  obtain ⟨entries⟩ := m
  change (insertEntry name value entries).Pairwise _
  induction entries with
  | nil => exact List.pairwise_singleton _ _
  | cons entry rest ih =>
    obtain ⟨other, old⟩ := entry
    obtain ⟨hfirst, hrest⟩ := List.pairwise_cons.1 h
    rcases lt_trichotomy name other with hlt | rfl | hgt
    · rw [insertEntry_of_lt hlt]
      refine List.pairwise_cons.2 ⟨fun e he => ?_, h⟩
      rcases List.mem_cons.1 he with rfl | he
      · exact hlt
      · exact hlt.trans (hfirst e he)
    · rw [insertEntry_self]
      exact List.pairwise_cons.2 ⟨hfirst, hrest⟩
    · rw [insertEntry_of_gt hgt]
      refine List.pairwise_cons.2 ⟨fun e he => ?_, ih hrest⟩
      rcases mem_insertEntry he with rfl | he
      · exact hgt
      · exact hfirst e he

theorem Sorted.merge (h : m.Sorted) : (m.merge later).Sorted := by
  obtain ⟨entries⟩ := later
  induction entries generalizing m with
  | nil => exact h
  | cons entry rest ih => exact ih h.insert

theorem Sorted.map {β : Type} {f : α → β} (h : m.Sorted) : (m.map f).Sorted :=
  List.pairwise_map.2 h

theorem hasKey_map {β : Type} {f : α → β} : (m.map f).HasKey name ↔ m.HasKey name := by
  constructor
  · rintro ⟨value, h⟩
    obtain ⟨e, he, heq⟩ := List.mem_map.1 h
    cases heq
    exact ⟨e.2, he⟩
  · rintro ⟨value, h⟩
    exact ⟨f value, List.mem_map_of_mem h⟩

theorem insertEntry_of_forall_lt (h : ∀ e ∈ entries, e.1 < name) :
    insertEntry name value entries = entries ++ [(name, value)] := by
  induction entries with
  | nil => rfl
  | cons entry rest ih =>
    obtain ⟨hfirst, hrest⟩ := List.forall_mem_cons.1 h
    rw [insertEntry_of_gt hfirst, ih hrest, List.cons_append]

theorem empty_merge (h : m.Sorted) : ({} : NameMap α).merge m = m := by
  obtain ⟨entries⟩ := m
  suffices hall : ∀ front, (front ++ entries).Pairwise (fun e f => e.1 < f.1) →
      (NameMap.mk front).merge ⟨entries⟩ = ⟨front ++ entries⟩ from hall [] h
  clear h
  induction entries with
  | nil =>
    intro front _
    rw [List.append_nil]
    rfl
  | cons entry rest ih =>
    intro front h
    have hbefore : ∀ e ∈ front, e.1 < entry.1 := fun e he =>
      (List.pairwise_append.1 h).2.2 e he entry List.mem_cons_self
    have hinsert : (NameMap.mk front).insert entry.1 entry.2 = ⟨front ++ [entry]⟩ :=
      congrArg mk (insertEntry_of_forall_lt hbefore)
    have hrest := ih (front ++ [entry]) (by rwa [List.append_assoc])
    rw [← hinsert, List.append_assoc] at hrest
    exact hrest

end NameMap

/-! ### Contents of packages -/

namespace PackageContents

variable {c c' d d' a b : PackageContents} {ρ σ : TypeId → TypeId}

/-- Nothing but the order of `use` declarations is different. -/
structure Same (c d : PackageContents) : Prop where
  /-- The same worlds. -/
  worlds : c.worlds = d.worlds
  /-- The same types. -/
  types : c.definitions.types = d.definitions.types
  /-- The same interfaces. -/
  interfaces : c.definitions.interfaces = d.definitions.interfaces

theorem Same.refl (c : PackageContents) : c.Same c :=
  ⟨rfl, rfl, rfl⟩

theorem Same.symm (h : c.Same d) : d.Same c :=
  ⟨h.worlds.symm, h.types.symm, h.interfaces.symm⟩

theorem Same.trans {e : PackageContents} (h : c.Same d) (h' : d.Same e) : c.Same e :=
  ⟨h.worlds.trans h'.worlds, h.types.trans h'.types, h.interfaces.trans h'.interfaces⟩

theorem Same.merge (h : c.Same c') (h' : d.Same d') : (c.merge d).Same (c'.merge d') where
  worlds := congrArg₂ NameMap.merge h.worlds h'.worlds
  types := congrArg₂ NameMap.merge h.types h'.types
  interfaces := congrArg₂ NameMap.merge h.interfaces h'.interfaces

theorem Same.rename (h : c.Same d) : (c.rename ρ).Same (d.rename ρ) where
  worlds := congrArg (NameMap.map _) h.worlds
  types := congrArg (NameMap.map _) h.types
  interfaces := congrArg (NameMap.map _) h.interfaces

/-- No name is defined in both. -/
structure Disjoint (c d : PackageContents) : Prop where
  /-- No world is. -/
  worlds : ∀ name, c.worlds.HasKey name → ¬d.worlds.HasKey name
  /-- No type is. -/
  types : ∀ name, c.definitions.types.HasKey name → ¬d.definitions.types.HasKey name
  /-- No interface is. -/
  interfaces : ∀ name, c.definitions.interfaces.HasKey name → ¬d.definitions.interfaces.HasKey name

theorem merge_comm (h : a.Disjoint b) : ((c.merge a).merge b).Same ((c.merge b).merge a) where
  worlds := NameMap.merge_comm h.worlds
  types := NameMap.merge_comm h.types
  interfaces := NameMap.merge_comm h.interfaces

/-- All definitions are in the order of their names. -/
structure Sorted (c : PackageContents) : Prop where
  /-- The worlds are. -/
  worlds : c.worlds.Sorted
  /-- The types are. -/
  types : c.definitions.types.Sorted
  /-- The interfaces are. -/
  interfaces : c.definitions.interfaces.Sorted

theorem Disjoint.rename (h : c.Disjoint d) : (c.rename ρ).Disjoint (d.rename σ) where
  worlds _ hc hd := h.worlds _ (NameMap.hasKey_map.1 hc) (NameMap.hasKey_map.1 hd)
  types _ hc hd := h.types _ (NameMap.hasKey_map.1 hc) (NameMap.hasKey_map.1 hd)
  interfaces _ hc hd := h.interfaces _ (NameMap.hasKey_map.1 hc) (NameMap.hasKey_map.1 hd)

theorem Sorted.rename (h : c.Sorted) : (c.rename ρ).Sorted where
  worlds := h.worlds.map
  types := h.types.map
  interfaces := h.interfaces.map

theorem empty_merge (h : c.Sorted) : (PackageContents.merge {} c).Same c where
  worlds := NameMap.empty_merge h.worlds
  types := NameMap.empty_merge h.types
  interfaces := NameMap.empty_merge h.interfaces

theorem merge_swap (ha : a.Sorted) (hb : b.Sorted) (h : a.Disjoint b) :
    (a.merge b).Same (b.merge a) :=
  ((empty_merge ha).symm.merge (.refl b)).trans
    ((merge_comm h).trans ((empty_merge hb).merge (.refl a)))

end PackageContents

/-! ### Versions of a package -/

namespace Package

variable {v w o : Option Version} {a b c d old : PackageContents}
  {xs ys zs rest : List (Option Version × PackageContents)}

/-- The versions are the same, in any spelling, with the same contents. -/
def SameVersions (xs ys : List (Option Version × PackageContents)) : Prop :=
  List.Forall₂ (fun e f => compareVersions e.1 f.1 = .eq ∧ e.2.Same f.2) xs ys

theorem SameVersions.refl (xs : List (Option Version × PackageContents)) : SameVersions xs xs :=
  List.forall₂_same.2 fun e _ => ⟨Std.ReflCmp.compare_self, .refl e.2⟩

theorem SameVersions.trans (h : SameVersions xs ys) (h' : SameVersions ys zs) :
    SameVersions xs zs := by
  induction h generalizing zs with
  | nil => exact h'
  | cons hfirst _ ih =>
    cases h' with
    | cons hfirst' hrest' =>
      exact .cons ⟨Std.TransCmp.eq_trans hfirst.1 hfirst'.1, hfirst.2.trans hfirst'.2⟩ (ih hrest')

theorem insertContents_of_lt (h : compareVersions v o = .lt) :
    insertContents v c ((o, old) :: rest) = (v, c) :: (o, old) :: rest := by
  rw [insertContents, h]

theorem insertContents_of_eq (h : compareVersions v o = .eq) :
    insertContents v c ((o, old) :: rest) = (o, old.merge c) :: rest := by
  rw [insertContents, h]

theorem insertContents_of_gt (h : compareVersions v o = .gt) :
    insertContents v c ((o, old) :: rest) = (o, old) :: insertContents v c rest := by
  rw [insertContents, h]

theorem SameVersions.insertContents (hv : compareVersions v w = .eq) (hc : c.Same d)
    (h : SameVersions xs ys) :
    SameVersions (insertContents v c xs) (Package.insertContents w d ys) := by
  induction h with
  | nil => exact .cons ⟨hv, hc⟩ .nil
  | @cons e f es fs hfirst hrest ih =>
    obtain ⟨e, old⟩ := e
    obtain ⟨f, old'⟩ := f
    have hsame : compareVersions v e = compareVersions w f :=
      (Std.TransCmp.congr_left hv).trans (Std.TransCmp.congr_right hfirst.1)
    cases horder : compareVersions v e with
    | lt =>
      rw [insertContents_of_lt horder, insertContents_of_lt (hsame.symm.trans horder)]
      exact .cons ⟨hv, hc⟩ (.cons hfirst hrest)
    | eq =>
      rw [insertContents_of_eq horder, insertContents_of_eq (hsame.symm.trans horder)]
      exact .cons ⟨hfirst.1, hfirst.2.merge hc⟩ hrest
    | gt =>
      rw [insertContents_of_gt horder, insertContents_of_gt (hsame.symm.trans horder)]
      exact .cons hfirst ih

theorem insertContents_comm_of_lt (h : compareVersions v w = .lt)
    (xs : List (Option Version × PackageContents)) :
    insertContents w b (insertContents v a xs) = insertContents v a (insertContents w b xs) := by
  have hgt : compareVersions w v = .gt := Std.OrientedCmp.gt_of_lt h
  induction xs with
  | nil =>
    rw [insertContents, insertContents, insertContents_of_gt hgt, insertContents_of_lt h,
      insertContents]
  | cons entry rest ih =>
    obtain ⟨o, old⟩ := entry
    cases hvo : compareVersions v o with
    | lt =>
      rw [insertContents_of_lt hvo, insertContents_of_gt hgt]
      cases hwo : compareVersions w o with
      | lt => rw [insertContents_of_lt hwo, insertContents_of_lt h]
      | eq => rw [insertContents_of_eq hwo, insertContents_of_lt hvo]
      | gt => rw [insertContents_of_gt hwo, insertContents_of_lt hvo]
    | eq =>
      have hwo : compareVersions w o = .gt := (Std.TransCmp.congr_right hvo).symm.trans hgt
      rw [insertContents_of_eq hvo, insertContents_of_gt hwo, insertContents_of_gt hwo,
        insertContents_of_eq hvo]
    | gt =>
      have hwo : compareVersions w o = .gt := Std.TransCmp.gt_trans hgt hvo
      rw [insertContents_of_gt hvo, insertContents_of_gt hwo, insertContents_of_gt hwo,
        insertContents_of_gt hvo, ih]

theorem sameVersions_insertContents_of_eq (h : compareVersions v w = .eq) (ha : a.Sorted)
    (hb : b.Sorted) (hab : a.Disjoint b) (xs : List (Option Version × PackageContents)) :
    SameVersions (insertContents w b (insertContents v a xs))
      (insertContents v a (insertContents w b xs)) := by
  have hwv : compareVersions w v = .eq := Std.OrientedCmp.eq_symm h
  have hnew (rest : List (Option Version × PackageContents)) :
      SameVersions (insertContents w b ((v, a) :: rest)) (insertContents v a ((w, b) :: rest)) := by
    rw [insertContents_of_eq hwv, insertContents_of_eq h]
    exact .cons ⟨h, PackageContents.merge_swap ha hb hab⟩ (SameVersions.refl rest)
  -- Equal versions compare alike with all others, so both contents go to the same place.
  induction xs with
  | nil => exact hnew []
  | cons entry rest ih =>
    obtain ⟨o, old⟩ := entry
    have hsame : compareVersions w o = compareVersions v o := (Std.TransCmp.congr_left h).symm
    cases hvo : compareVersions v o with
    | lt =>
      rw [insertContents_of_lt hvo, insertContents_of_lt (hsame.trans hvo)]
      exact hnew _
    | eq =>
      rw [insertContents_of_eq hvo, insertContents_of_eq (hsame.trans hvo),
        insertContents_of_eq (hsame.trans hvo), insertContents_of_eq hvo]
      exact .cons ⟨Std.ReflCmp.compare_self, PackageContents.merge_comm hab⟩
        (SameVersions.refl rest)
    | gt =>
      rw [insertContents_of_gt hvo, insertContents_of_gt (hsame.trans hvo),
        insertContents_of_gt (hsame.trans hvo), insertContents_of_gt hvo]
      exact .cons ⟨Std.ReflCmp.compare_self, .refl old⟩ ih

/-- Contents of one version can be added in any order if they define different names, and contents
of different versions always. -/
theorem sameVersions_insertContents (ha : a.Sorted) (hb : b.Sorted)
    (hab : compareVersions v w = .eq → a.Disjoint b)
    (xs : List (Option Version × PackageContents)) :
    SameVersions (insertContents w b (insertContents v a xs))
      (insertContents v a (insertContents w b xs)) := by
  cases h : compareVersions v w with
  | lt =>
    rw [insertContents_comm_of_lt h]
    exact .refl _
  | eq => exact sameVersions_insertContents_of_eq h ha hb (hab h) xs
  | gt =>
    rw [insertContents_comm_of_lt (Std.OrientedCmp.lt_of_gt h)]
    exact .refl _

end Package

/-! ### Stores -/

namespace Package

variable {p q r : Package} {ρ σ : TypeId → TypeId}

/-- The same package in the same versions. -/
def Same (p q : Package) : Prop :=
  p.name = q.name ∧ SameVersions p.versions q.versions

theorem Same.refl (p : Package) : p.Same p :=
  ⟨rfl, .refl _⟩

/-- The package with all ids renamed. -/
def rename (ρ : TypeId → TypeId) (p : Package) : Package :=
  { p with versions := p.versions.map fun e => (e.1, e.2.rename ρ) }

theorem rename_insertContents (v : Option Version) (c : PackageContents)
    (xs : List (Option Version × PackageContents)) :
    (insertContents v c xs).map (fun e => (e.1, e.2.rename ρ)) =
      insertContents v (c.rename ρ) (xs.map fun e => (e.1, e.2.rename ρ)) := by
  induction xs with
  | nil => rfl
  | cons entry rest ih =>
    obtain ⟨o, old⟩ := entry
    simp only [insertContents, List.map_cons]
    split
    · rw [List.map_cons, PackageContents.rename_merge]
    · rfl
    · rw [List.map_cons, ih]

end Package

namespace PackageStore

variable {m n : PackageName} {v w : Option Version} {a b c d : PackageContents}
  {s t u : PackageStore} {p : Package} {rest xs ys : List Package} {ρ σ : TypeId → TypeId}

theorem insertPackage_of_lt (h : n.compare p.name = .lt) :
    insertPackage n v c (p :: rest) = Package.insert { name := n } v c :: p :: rest := by
  rw [insertPackage, h]

theorem insertPackage_of_eq (h : n.compare p.name = .eq) :
    insertPackage n v c (p :: rest) = p.insert v c :: rest := by
  rw [insertPackage, h]

theorem insertPackage_of_gt (h : n.compare p.name = .gt) :
    insertPackage n v c (p :: rest) = p :: insertPackage n v c rest := by
  rw [insertPackage, h]

/-- The same packages in the same versions. -/
def Same (s t : PackageStore) : Prop :=
  List.Forall₂ Package.Same s.packages t.packages

theorem Same.refl (s : PackageStore) : s.Same s :=
  List.forall₂_same.2 fun p _ => .refl p

theorem Same.trans (h : s.Same t) (h' : t.Same u) : s.Same u := by
  obtain ⟨ps⟩ := s
  obtain ⟨qs⟩ := t
  obtain ⟨rs⟩ := u
  change List.Forall₂ _ ps rs
  change List.Forall₂ _ ps qs at h
  change List.Forall₂ _ qs rs at h'
  induction h generalizing rs with
  | nil => exact h'
  | cons hfirst _ ih =>
    cases h' with
    | cons hfirst' hrest' =>
      exact .cons ⟨hfirst.1.trans hfirst'.1, hfirst.2.trans hfirst'.2⟩ (ih _ hrest')

theorem Same.insert {ref : PackageRef} (hc : c.Same d) (h : s.Same t) :
    (s.insert ref c).Same (t.insert ref d) := by
  have hinsert {p q : Package} (h : p.Same q) :
      (p.insert ref.version c).Same (q.insert ref.version d) :=
    ⟨h.1, h.2.insertContents Std.ReflCmp.compare_self hc⟩
  obtain ⟨ps⟩ := s
  obtain ⟨qs⟩ := t
  change List.Forall₂ _ (insertPackage ref.name ref.version c ps)
    (insertPackage ref.name ref.version d qs)
  change List.Forall₂ _ ps qs at h
  induction h with
  | nil => exact .cons (hinsert (.refl _)) .nil
  | @cons p q ps qs hfirst hrest ih =>
    cases horder : ref.name.compare p.name with
    | lt =>
      rw [insertPackage_of_lt horder, insertPackage_of_lt (hfirst.1 ▸ horder)]
      exact .cons (hinsert (.refl _)) (.cons hfirst hrest)
    | eq =>
      rw [insertPackage_of_eq horder, insertPackage_of_eq (hfirst.1 ▸ horder)]
      exact .cons (hinsert hfirst) hrest
    | gt =>
      rw [insertPackage_of_gt horder, insertPackage_of_gt (hfirst.1 ▸ horder)]
      exact .cons hfirst ih

theorem insertPackage_comm_of_lt (h : n.compare m = .lt) (xs : List Package) :
    insertPackage m w b (insertPackage n v a xs) =
      insertPackage n v a (insertPackage m w b xs) := by
  have hgt : m.compare n = .gt := Std.OrientedCmp.gt_of_lt h
  -- The smaller name is placed first: up to there, the greater one is still on its way.
  induction xs with
  | nil =>
    rw [insertPackage, insertPackage, insertPackage_of_gt hgt, insertPackage_of_lt h, insertPackage]
  | cons p rest ih =>
    cases hn : n.compare p.name with
    | lt =>
      rw [insertPackage_of_lt hn, insertPackage_of_gt hgt]
      cases hm : m.compare p.name with
      | lt => rw [insertPackage_of_lt hm, insertPackage_of_lt h]
      | eq => rw [insertPackage_of_eq hm, insertPackage_of_lt (p := p.insert w b) hn]
      | gt => rw [insertPackage_of_gt hm, insertPackage_of_lt hn]
    | eq =>
      have hm : m.compare p.name = .gt := (Std.TransCmp.congr_right hn).symm.trans hgt
      rw [insertPackage_of_eq hn, insertPackage_of_gt (p := p.insert v a) hm,
        insertPackage_of_gt hm, insertPackage_of_eq hn]
    | gt =>
      have hm : m.compare p.name = .gt := Std.TransCmp.gt_trans hgt hn
      rw [insertPackage_of_gt hn, insertPackage_of_gt hm, insertPackage_of_gt hm,
        insertPackage_of_gt hn, ih]

theorem forall₂_insertPackage_of_eq (ha : a.Sorted) (hb : b.Sorted)
    (hab : Package.compareVersions v w = .eq → a.Disjoint b) (xs : List Package) :
    List.Forall₂ Package.Same (insertPackage n w b (insertPackage n v a xs))
      (insertPackage n v a (insertPackage n w b xs)) := by
  have hinsert (p : Package) : ((p.insert v a).insert w b).Same ((p.insert w b).insert v a) :=
    ⟨rfl, Package.sameVersions_insertContents ha hb hab _⟩
  have hsame (rest : List Package) : List.Forall₂ Package.Same rest rest :=
    List.forall₂_same.2 fun p _ => .refl p
  have hnew (rest : List Package) : List.Forall₂ Package.Same
      (insertPackage n w b (Package.insert { name := n } v a :: rest))
      (insertPackage n v a (Package.insert { name := n } w b :: rest)) := by
    have hself : n.compare n = .eq := Std.ReflCmp.compare_self
    rw [insertPackage_of_eq hself, insertPackage_of_eq hself]
    exact .cons (hinsert { name := n }) (hsame rest)
  induction xs with
  | nil => exact hnew []
  | cons p rest ih =>
    cases hn : n.compare p.name with
    | lt =>
      rw [insertPackage_of_lt hn, insertPackage_of_lt hn]
      exact hnew _
    | eq =>
      rw [insertPackage_of_eq hn, insertPackage_of_eq (p := p.insert v a) hn,
        insertPackage_of_eq hn, insertPackage_of_eq (p := p.insert w b) hn]
      exact .cons (hinsert p) (hsame rest)
    | gt =>
      rw [insertPackage_of_gt hn, insertPackage_of_gt hn, insertPackage_of_gt hn,
        insertPackage_of_gt hn]
      exact .cons (.refl p) ih

/-- Contents that define different names can be added in any order. -/
theorem insert_comm {ref ref' : PackageRef} (ha : a.Sorted) (hb : b.Sorted)
    (hab : ref.same ref' → a.Disjoint b) :
    ((s.insert ref a).insert ref' b).Same ((s.insert ref' b).insert ref a) := by
  have hexact (n m : PackageName) (v w : Option Version) (a b : PackageContents)
      (h : n.compare m = .lt) : insertPackage m w b (insertPackage n v a s.packages) =
        insertPackage n v a (insertPackage m w b s.packages) := insertPackage_comm_of_lt h _
  change List.Forall₂ _ (insertPackage ref'.name ref'.version b
    (insertPackage ref.name ref.version a s.packages)) (insertPackage ref.name ref.version a
    (insertPackage ref'.name ref'.version b s.packages))
  cases h : ref.name.compare ref'.name with
  | lt =>
    rw [hexact _ _ _ _ _ _ h]
    exact List.forall₂_same.2 fun p _ => .refl p
  | eq =>
    have hname : ref.name = ref'.name := Std.LawfulEqCmp.eq_of_compare h
    rw [← hname]
    exact forall₂_insertPackage_of_eq ha hb
      (fun hversion => hab (PackageRef.same_iff.2 ⟨hname, hversion⟩)) _
  | gt =>
    rw [hexact _ _ _ _ _ _ (Std.OrientedCmp.lt_of_gt h)]
    exact List.forall₂_same.2 fun p _ => .refl p

/-- The store with all ids renamed. -/
def rename (ρ : TypeId → TypeId) (s : PackageStore) : PackageStore :=
  ⟨s.packages.map (Package.rename ρ)⟩

theorem rename_insert (s : PackageStore) (ref : PackageRef) (c : PackageContents) :
    (s.insert ref c).rename ρ = (s.rename ρ).insert ref (c.rename ρ) := by
  obtain ⟨packages⟩ := s
  change PackageStore.mk ((insertPackage ref.name ref.version c packages).map _) =
    ⟨insertPackage ref.name ref.version _ (packages.map _)⟩
  rw [mk.injEq]
  have hinsert (p : Package) :
      (p.insert ref.version c).rename ρ = (p.rename ρ).insert ref.version (c.rename ρ) := by
    simp only [Package.rename, Package.insert, Package.rename_insertContents]
  induction packages with
  | nil => exact congrArg (fun p => [p]) (hinsert { name := ref.name })
  | cons p rest ih =>
    have hname : (p.rename ρ).name = p.name := rfl
    simp only [insertPackage, List.map_cons, hname]
    split
    · rw [List.map_cons, hinsert]
    · rw [List.map_cons, List.map_cons, hinsert]
      rfl
    · rw [List.map_cons, ih]

theorem rename_rename (s : PackageStore) : (s.rename σ).rename ρ = s.rename (ρ ∘ σ) := by
  simp only [rename, List.map_map, Function.comp_def, Package.rename,
    PackageContents.rename_rename]
  rfl

theorem Same.rename (h : s.Same t) : (s.rename ρ).Same (t.rename ρ) := by
  refine List.forall₂_map_left_iff.2 (List.forall₂_map_right_iff.2 (h.imp fun p q hpq => ?_))
  refine ⟨hpq.1, List.forall₂_map_left_iff.2 (List.forall₂_map_right_iff.2 (hpq.2.imp ?_))⟩
  exact fun e f hef => ⟨hef.1, hef.2.rename⟩

end PackageStore

end ComponentAbi
