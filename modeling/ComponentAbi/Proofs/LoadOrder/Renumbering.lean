import ComponentAbi.Proofs.LoadOrder.Apart

/-!
# Loading in another order

Loading groups in another order gives the same project with other ids
(`Project.exists_renumbers_of_perm`), if no name is declared in two of them. Two blocks that are
next to each other trade places, which moves the nodes of each past those of the other.
-/

namespace ComponentAbi

namespace Project

variable {ρ σ : TypeId → TypeId} {p q r : Project} {b b' : PackageBlock} {part part' : Part}
  {id : TypeId}

/-- The second project is the first with other ids for its nodes. -/
structure Renumbers (ρ : TypeId → TypeId) (p q : Project) : Prop where
  /-- Different nodes have different ids. -/
  injective : Function.Injective ρ
  /-- Ids without a node stay as they are. -/
  fixes : ∀ id, p.arena.size ≤ id.index → ρ id = id
  /-- Nodes are found under their new ids. -/
  node : ∀ id, q.arena.get? (ρ id) = (p.arena.get? id).map (TypeNode.rename ρ)
  /-- There are no other nodes. -/
  perm : q.arena.nodes.toList.Perm (p.arena.nodes.toList.map (TypeNode.rename ρ))
  /-- The packages hold the same. -/
  store : (p.store.rename ρ).Same q.store

namespace Renumbers

theorem size_eq (h : p.Renumbers ρ q) : q.arena.size = p.arena.size := by
  simpa [TypeArena.size] using h.perm.length_eq

theorem index_lt_iff (h : p.Renumbers ρ q) :
    (ρ id).index < p.arena.size ↔ id.index < p.arena.size := by
  have hback (hle : p.arena.size ≤ (ρ id).index) : ρ id = id := h.injective (h.fixes _ hle)
  constructor
  · intro hlt
    by_contra hid
    rw [h.fixes id (Nat.le_of_not_lt hid)] at hlt
    exact hid hlt
  · intro hid
    by_contra hlt
    rw [hback (Nat.le_of_not_lt hlt)] at hlt
    exact hlt hid

theorem trans (h : p.Renumbers ρ q) (h' : q.Renumbers σ r) : p.Renumbers (σ ∘ ρ) r where
  injective := h'.injective.comp h.injective
  fixes id hid := by
    rw [Function.comp_apply, h.fixes id hid, h'.fixes id (h.size_eq ▸ hid)]
  node id := by
    rw [Function.comp_apply, h'.node, h.node, Option.map_map]
    exact congrArg (Option.map · _) (funext TypeNode.rename_rename)
  perm := by
    have hmap := h.perm.map (TypeNode.rename σ)
    rw [List.map_map, show TypeNode.rename σ ∘ TypeNode.rename ρ = TypeNode.rename (σ ∘ ρ) from
      funext TypeNode.rename_rename] at hmap
    exact h'.perm.trans hmap
  store := by
    rw [← PackageStore.rename_rename]
    exact h.store.rename.trans h'.store

end Renumbers

/-! ### Adding a part to both -/

theorem get?_add (p : Project) (part : Part) (id : TypeId) : (p.add part).arena.get? id =
    if id.index < p.arena.size then p.arena.get? id
    else (part.arena.get? ⟨id.index - p.arena.size⟩).map
      (TypeNode.rename (TypeId.shift p.arena.size)) := by
  rw [add, above, TypeArena.get?, Array.getElem?_append, Array.getElem?_map]
  rfl

theorem size_add (p : Project) (part : Part) :
    (p.add part).arena.size = p.arena.size + part.arena.size := by
  simp [add, above, TypeArena.size]

/-- What is added gets the same ids in both projects. -/
theorem Renumbers.add (h : p.Renumbers ρ q) (part : Part) :
    (p.add part).Renumbers ρ (q.add part) := by
  have hshift : ρ ∘ TypeId.shift p.arena.size = TypeId.shift p.arena.size :=
    funext fun id => h.fixes _ (Nat.le_add_right _ _)
  have hnode : TypeNode.rename ρ ∘ TypeNode.rename (TypeId.shift p.arena.size) =
      TypeNode.rename (TypeId.shift p.arena.size) :=
    funext fun node => by rw [Function.comp_apply, TypeNode.rename_rename, hshift]
  refine ⟨h.injective, fun id hid => h.fixes id ?_, fun id => ?_, ?_, ?_⟩
  · rw [size_add] at hid
    exact Nat.le_of_add_right_le hid
  · rw [get?_add, get?_add, h.size_eq]
    by_cases hid : id.index < p.arena.size
    · rw [if_pos hid, if_pos (h.index_lt_iff.2 hid), h.node]
    · rw [if_neg hid, if_neg (mt h.index_lt_iff.1 hid), h.fixes id (Nat.le_of_not_lt hid),
        Option.map_map, hnode]
  · simp only [Project.add, above, h.size_eq, Array.toList_append, Array.toList_map,
      List.map_append, List.map_map, hnode]
    exact h.perm.append_right _
  · rw [Project.add, Project.add, h.size_eq, PackageStore.rename_insert,
      PackageContents.rename_rename, hshift]
    exact h.store.insert (.refl _)

theorem Renumbers.adds (h : p.Renumbers ρ q) {bs : List PackageBlock} {p' : Project}
    (hadds : Adds bs p p') : ∃ q', Adds bs q q' ∧ p'.Renumbers ρ q' := by
  obtain ⟨parts, hparts, rfl⟩ := hadds
  refine ⟨_, ⟨parts, hparts, rfl⟩, ?_⟩
  clear hparts
  induction parts generalizing p q with
  | nil => exact h
  | cons part rest ih => exact ih (h.add part)

/-! ### Closed projects -/

/-- The project has no ids but those of its own nodes, so only what these are renamed to matters. -/
def Closed (p : Project) : Prop :=
  ∀ ρ : TypeId → TypeId, (∀ i < p.arena.size, ρ ⟨i⟩ = ⟨i⟩) →
    p.arena.nodes.map (TypeNode.rename ρ) = p.arena.nodes ∧ p.store.rename ρ = p.store

theorem closed_empty : Closed {} :=
  fun _ _ => ⟨Array.map_empty, rfl⟩

theorem Closed.add (h : p.Closed) (hpart : b.Builds part) : (p.add part).Closed := by
  intro ρ hρ
  rw [size_add] at hρ
  obtain ⟨hnodes, hstore⟩ := h ρ fun i hi => hρ i (Nat.lt_add_right _ hi)
  obtain ⟨hcontents, hnew⟩ := hpart.rename_eq (ρ := ρ ∘ TypeId.shift p.arena.size) fun i hi =>
    hρ _ (Nat.add_lt_add_left hi _)
  constructor
  · rw [Project.add, above, Array.map_append, Array.map_map, hnodes, ← hnew]
    exact congrArg (_ ++ Array.map · _) (funext TypeNode.rename_rename)
  · rw [Project.add, PackageStore.rename_insert, hstore, PackageContents.rename_rename, hcontents]

theorem Closed.adds (h : p.Closed) {bs : List PackageBlock} (hadds : Adds bs p q) : q.Closed := by
  induction bs generalizing p with
  | nil =>
    rw [adds_nil.1 hadds]
    exact h
  | cons b rest ih =>
    obtain ⟨part, hpart, hrest⟩ := adds_cons.1 hadds
    exact ih (h.add hpart) hrest

theorem Closed.renumbers (h : p.Closed) : p.Renumbers (fun id => id) p := by
  obtain ⟨hnodes, hstore⟩ := h (fun id => id) fun _ _ => rfl
  refine ⟨fun _ _ h => h, fun _ _ => rfl, fun id => ?_, ?_, ?_⟩
  · have := congrArg (·[id.index]?) hnodes
    simpa [TypeArena.get?] using this.symm
  · have := congrArg Array.toList hnodes
    rw [Array.toList_map] at this
    rw [this]
  · rw [hstore]
    exact .refl _

/-! ### Trading places -/

/-- The ids after two runs of nodes have traded places. The first run has `m` nodes and starts at
`k`, the second one has `n` nodes. -/
def trade (k m n : Nat) (id : TypeId) : TypeId where
  index :=
    if id.index < k then id.index
    else if id.index < k + m then id.index + n
    else if id.index < k + m + n then id.index - m
    else id.index

theorem trade_injective (k m n : Nat) : Function.Injective (trade k m n) := by
  rintro ⟨i⟩ ⟨j⟩ h
  have hindex := congrArg TypeId.index h
  simp only [trade] at hindex
  congr 1
  grind

theorem trade_of_lt {k m n i : Nat} (h : i < k) : trade k m n ⟨i⟩ = ⟨i⟩ := by
  rw [trade]
  exact congrArg TypeId.mk (if_pos h)

theorem trade_first {k m n i : Nat} (h : i < m) : trade k m n ⟨k + i⟩ = ⟨k + n + i⟩ := by
  simp only [trade, TypeId.mk.injEq]
  rw [if_neg (by omega), if_pos (by omega)]
  omega

theorem trade_second {k m n i : Nat} (h : i < n) : trade k m n ⟨k + m + i⟩ = ⟨k + i⟩ := by
  simp only [trade, TypeId.mk.injEq]
  rw [if_neg (by omega), if_neg (by omega), if_pos (by omega)]
  omega

theorem trade_of_le {k m n i : Nat} (h : k + m + n ≤ i) : trade k m n ⟨i⟩ = ⟨i⟩ := by
  simp only [trade, TypeId.mk.injEq]
  rw [if_neg (by omega), if_neg (by omega), if_neg (by omega)]

theorem getElem?_trade {α : Type} (xs ys zs : Array α) (id : TypeId) :
    (xs ++ zs ++ ys)[(trade xs.size ys.size zs.size id).index]? = (xs ++ ys ++ zs)[id.index]? := by
  simp only [trade, Array.getElem?_append, Array.size_append]
  grind

/-- The nodes of a project with two parts added, after its own nodes. -/
theorem nodes_add_add (p : Project) (part part' : Part) :
    ((p.add part).add part').arena.nodes = p.arena.nodes ++
      part.arena.nodes.map (TypeNode.rename (TypeId.shift p.arena.size)) ++
      part'.arena.nodes.map
        (TypeNode.rename (TypeId.shift (p.arena.size + part.arena.size))) := by
  rw [add, above, size_add]
  rfl

theorem store_add_add (p : Project) (part part' : Part) :
    ((p.add part).add part').store =
      (p.store.insert part.package
        (part.contents.rename (TypeId.shift p.arena.size))).insert part'.package
          (part'.contents.rename (TypeId.shift (p.arena.size + part.arena.size))) := by
  rw [add, size_add]
  rfl

/-- Two parts without a common name can be added in any order. -/
theorem Closed.renumbers_trade (h : p.Closed) (hpart : b.Builds part) (hpart' : b'.Builds part')
    (hapart : b.package.same b'.package → b.Apart b') :
    ((p.add part).add part').Renumbers
      (trade p.arena.size part.arena.size part'.arena.size) ((p.add part').add part) := by
  generalize hk : p.arena.size = k
  generalize hm : part.arena.size = m
  generalize hn : part'.arena.size = n
  obtain ⟨hnodes, hstore⟩ := h (trade k m n) fun i hi => trade_of_lt (hk ▸ hi)
  -- Each part is moved as a whole.
  obtain ⟨hcontents, hmoved⟩ := hpart.rename_eq (ρ := trade k m n ∘ TypeId.shift k) (k := k + n)
    fun i hi => trade_first (hm ▸ hi)
  obtain ⟨hcontents', hmoved'⟩ := hpart'.rename_eq (ρ := trade k m n ∘ TypeId.shift (k + m))
    (k := k) fun i hi => trade_second (hn ▸ hi)
  have hrenamed : ((p.add part).add part').arena.nodes.map (TypeNode.rename (trade k m n)) =
      p.arena.nodes ++ part.arena.nodes.map (TypeNode.rename (TypeId.shift (k + n))) ++
        part'.arena.nodes.map (TypeNode.rename (TypeId.shift k)) := by
    rw [nodes_add_add, hk, hm, Array.map_append, Array.map_append, hnodes, Array.map_map,
      Array.map_map, ← hmoved, ← hmoved']
    simp only [Function.comp_def, TypeNode.rename_rename]
  have hmine : ((p.add part').add part).arena.nodes = p.arena.nodes ++
      part'.arena.nodes.map (TypeNode.rename (TypeId.shift k)) ++
        part.arena.nodes.map (TypeNode.rename (TypeId.shift (k + n))) := by
    rw [nodes_add_add, hk, hn]
  refine ⟨trade_injective k m n, fun id hid => trade_of_le ?_, fun id => ?_, ?_, ?_⟩
  · rw [size_add, size_add] at hid
    omega
  · have hget := getElem?_trade p.arena.nodes
      (part.arena.nodes.map (TypeNode.rename (TypeId.shift (k + n))))
      (part'.arena.nodes.map (TypeNode.rename (TypeId.shift k))) id
    simp only [Array.size_map] at hget
    rw [TypeArena.get?, TypeArena.get?, hmine, ← Array.getElem?_map, hrenamed, ← hget]
    rw [← hk, ← hm, ← hn]
    rfl
  · rw [← Array.toList_map, hrenamed, hmine]
    simp only [Array.toList_append, List.append_assoc]
    exact List.perm_append_comm.append_left _
  · have hold : ((p.add part).add part').store.rename (trade k m n) =
        (p.store.insert part.package (part.contents.rename (TypeId.shift (k + n)))).insert
          part'.package (part'.contents.rename (TypeId.shift k)) := by
      rw [store_add_add, PackageStore.rename_insert, PackageStore.rename_insert, hstore,
        PackageContents.rename_rename, PackageContents.rename_rename, hk, hm, hcontents, hcontents']
    rw [hold, store_add_add, hk, hn]
    refine PackageStore.insert_comm hpart.declaredBy.sorted.rename hpart'.declaredBy.sorted.rename
      fun hsame => PackageContents.Disjoint.rename ?_
    rw [hpart.package, hpart'.package] at hsame
    exact hpart.declaredBy.disjoint hpart'.declaredBy (hapart hsame)

/-! ### Blocks and groups in another order -/

variable {bs bs' : List PackageBlock}

/-- A block can be added after blocks that are apart from it. -/
theorem Closed.adds_last (h : p.Closed) (hapart : PackageBlock.AllApart [b] bs)
    (hadds : Adds (b :: bs) p q) : ∃ ρ q', Adds (bs ++ [b]) p q' ∧ q.Renumbers ρ q' := by
  induction bs generalizing p q with
  | nil => exact ⟨_, q, hadds, (h.adds hadds).renumbers⟩
  | cons b' rest ih =>
    obtain ⟨part, hpart, hadds⟩ := adds_cons.1 hadds
    obtain ⟨part', hpart', hadds⟩ := adds_cons.1 hadds
    have htrade := h.renumbers_trade hpart hpart' fun hsame =>
      hapart b List.mem_cons_self b' List.mem_cons_self hsame
    obtain ⟨r, hr, hqr⟩ := htrade.adds hadds
    obtain ⟨ρ, q', hq', hrq'⟩ := ih (h.add hpart')
      (fun b hb b' hb' => hapart b hb b' (List.mem_cons_of_mem _ hb'))
      (adds_cons.2 ⟨part, hpart, hr⟩)
    exact ⟨_, q', adds_cons.2 ⟨part', hpart', hq'⟩, hqr.trans hrq'⟩

/-- Blocks that are apart can be added in the other order. -/
theorem Closed.adds_swap (h : p.Closed) (hapart : PackageBlock.AllApart bs bs')
    (hadds : Adds (bs ++ bs') p q) : ∃ ρ q', Adds (bs' ++ bs) p q' ∧ q.Renumbers ρ q' := by
  induction bs generalizing p q with
  | nil =>
    rw [List.append_nil]
    exact ⟨_, q, hadds, (h.adds hadds).renumbers⟩
  | cons b rest ih =>
    obtain ⟨part, hpart, hadds⟩ := adds_cons.1 hadds
    obtain ⟨ρ, r, hr, hqr⟩ := ih (h.add hpart)
      (fun b hb => hapart b (List.mem_cons_of_mem _ hb)) hadds
    obtain ⟨mid, hmid, hrest⟩ := adds_append.1 hr
    obtain ⟨σ, mid', hmid', hmids⟩ := h.adds_last
      (fun b hb => hapart b (List.mem_singleton.1 hb ▸ List.mem_cons_self))
      (adds_cons.2 ⟨part, hpart, hmid⟩)
    obtain ⟨q', hq', hrq'⟩ := hmids.adds hrest
    refine ⟨_, q', ?_, hqr.trans hrq'⟩
    rw [← List.singleton_append, ← List.append_assoc]
    exact adds_append.2 ⟨mid', hmid', hq'⟩

theorem Closed.gives_addGroup {g : SourceGroup} {u : Unit} (h : p.Closed)
    (hgives : (LoadM.addGroup g).Gives p u q) : q.Closed :=
  let ⟨_, _, hadds⟩ := (LoadM.gives_addGroup g p q).1 hgives
  h.adds hadds

theorem Renumbers.gives_addGroup {g : SourceGroup} {p' : Project} {u : Unit} (h : p.Renumbers ρ q)
    (hgives : (LoadM.addGroup g).Gives p u p') :
    ∃ q', (LoadM.addGroup g).Gives q u q' ∧ p'.Renumbers ρ q' := by
  obtain ⟨bs, hbs, hadds⟩ := (LoadM.gives_addGroup g p p').1 hgives
  obtain ⟨q', hq', hrenumbers⟩ := h.adds hadds
  exact ⟨q', (LoadM.gives_addGroup g q q').2 ⟨bs, hbs, hq'⟩, hrenumbers⟩

theorem Renumbers.gives_groups {groups : List SourceGroup} {p' : Project} {u : Unit}
    (h : p.Renumbers ρ q) (hgives : (groups.forM LoadM.addGroup).Gives p u p') :
    ∃ q', (groups.forM LoadM.addGroup).Gives q u q' ∧ p'.Renumbers ρ q' := by
  induction groups generalizing p q with
  | nil =>
    rw [LoadM.gives_forM_nil.1 hgives]
    exact ⟨q, LoadM.gives_forM_nil.2 rfl, h⟩
  | cons g rest ih =>
    obtain ⟨mid, hg, hrest⟩ := LoadM.gives_forM_cons.1 hgives
    obtain ⟨mid', hg', hmid⟩ := h.gives_addGroup hg
    obtain ⟨q', hq', hrenumbers⟩ := ih hmid hrest
    exact ⟨q', LoadM.gives_forM_cons.2 ⟨mid', hg', hq'⟩, hrenumbers⟩

theorem Closed.gives_perm {groups groups' : List SourceGroup} {u : Unit}
    (hperm : groups.Perm groups') (hp : p.Closed) (hapart : groups.Pairwise SourceGroup.Apart)
    (hgives : (groups.forM LoadM.addGroup).Gives p u q) :
    ∃ ρ q', (groups'.forM LoadM.addGroup).Gives p u q' ∧ q.Renumbers ρ q' := by
  induction hperm generalizing p q with
  | nil =>
    rw [LoadM.gives_forM_nil.1 hgives]
    exact ⟨_, p, LoadM.gives_forM_nil.2 rfl, hp.renumbers⟩
  | cons g _ ih =>
    obtain ⟨mid, hg, hrest⟩ := LoadM.gives_forM_cons.1 hgives
    obtain ⟨ρ, q', hq', hrenumbers⟩ :=
      ih (hp.gives_addGroup hg) (List.pairwise_cons.1 hapart).2 hrest
    exact ⟨ρ, q', LoadM.gives_forM_cons.2 ⟨mid, hg, hq'⟩, hrenumbers⟩
  | swap g g' rest =>
    obtain ⟨mid, hg', hgives⟩ := LoadM.gives_forM_cons.1 hgives
    obtain ⟨mid', hg, hrest⟩ := LoadM.gives_forM_cons.1 hgives
    obtain ⟨bs', hbs', hadds'⟩ := (LoadM.gives_addGroup g' p mid).1 hg'
    obtain ⟨bs, hbs, hadds⟩ := (LoadM.gives_addGroup g mid mid').1 hg
    have hgroups : g'.Apart g := (List.pairwise_cons.1 hapart).1 g List.mem_cons_self
    obtain ⟨ρ, r, hr, hmid⟩ := hp.adds_swap (hgroups bs' bs hbs' hbs)
      (adds_append.2 ⟨mid, hadds', hadds⟩)
    obtain ⟨r', hfirst, hsecond⟩ := adds_append.1 hr
    obtain ⟨q', hq', hrenumbers⟩ := hmid.gives_groups hrest
    refine ⟨ρ, q', LoadM.gives_forM_cons.2 ⟨r', ?_, LoadM.gives_forM_cons.2 ⟨r, ?_, hq'⟩⟩,
      hrenumbers⟩
    · exact (LoadM.gives_addGroup g p r').2 ⟨bs, hbs, hfirst⟩
    · exact (LoadM.gives_addGroup g' r' r).2 ⟨bs', hbs', hsecond⟩
  | trans hfirst hsecond ih ih' =>
    obtain ⟨ρ, mid, hmid, hrenumbers⟩ := ih hp hapart hgives
    have hapart' := (hfirst.pairwise_iff fun h bs bs' hbs hbs' => (h bs' bs hbs' hbs).symm).1 hapart
    obtain ⟨σ, q', hq', hrenumbers'⟩ := ih' hp hapart' hmid
    exact ⟨_, q', hq', hrenumbers.trans hrenumbers'⟩

theorem ofGroups_eq_ok_iff_gives {groups : List SourceGroup} :
    ofGroups groups = .ok p ↔ (groups.forM LoadM.addGroup).Gives {} () p := by
  rw [ofGroups_eq_ok, LoadM.gives_forM LoadM.gives_addGroup]

/-- Groups that declare different names load in any order, and their nodes only get other ids. -/
theorem exists_renumbers_of_perm {groups groups' : List SourceGroup} (hperm : groups.Perm groups')
    (hapart : groups.Pairwise SourceGroup.Apart) (h : ofGroups groups = .ok p) :
    ∃ ρ q, ofGroups groups' = .ok q ∧ p.Renumbers ρ q := by
  obtain ⟨ρ, q, hq, hrenumbers⟩ :=
    closed_empty.gives_perm hperm hapart (ofGroups_eq_ok_iff_gives.1 h)
  exact ⟨ρ, q, ofGroups_eq_ok_iff_gives.2 hq, hrenumbers⟩

end Project

end ComponentAbi
