import ComponentAbi.Proofs.Shape.Search
import ComponentAbi.Proofs.Structure.Marshaling

/-!
# Results depend on the structure only

Everything that is computed of a type is the same for a type with the same structure, in the same
graph or in another one (`Abi.results_depend_on_structure`). References and names make no
difference, and neither does sharing, which decides what a search has visited before and where a
shape is cut off.

A search that finds something has a way to it through components, and one that finds nothing has
visited a set of nodes that no such way leaves. So one cannot find what the other does not.

What is read is nested as deeply as the memory makes it, and the bound on it depends on the size of
the graph. It changes no answer that there is without it (`Abi.liftFlat_eq_liftWithin`), so the
bounds of two graphs need not be the same.
-/

namespace ComponentAbi

namespace Abi

open MemoryM

variable {abi abi' : Abi} {id id' : TypeId} {p : TypeNode → Bool} {visited pending : List TypeId}

/-! ### Searching -/

/-- A way through components leads from the type to a node that is looked for. -/
inductive Finds (abi : Abi) (p : TypeNode → Bool) : TypeId → Prop where
  | here {id : TypeId} {found : TypeId × TypeNode} (stands : abi.lookup id = .ok found)
    (accepted : p found.2 = true) : Finds abi p id
  | inside {id part : TypeId} {found : TypeId × TypeNode} (stands : abi.lookup id = .ok found)
    (component : part ∈ found.2.components) (rest : Finds abi p part) : Finds abi p id

theorem finds_of_searchWithin {steps : Nat}
    (h : abi.searchWithin p steps visited pending = .ok true) : ∃ id ∈ pending, abi.Finds p id := by
  induction steps generalizing visited pending with
  | zero => cases h
  | succ steps ih =>
    cases pending with
    | nil => cases h
    | cons next pending =>
      obtain ⟨⟨resolved, node⟩, hnode, h⟩ := Except.bind_eq_ok.1 h
      dsimp only at h
      split at h
      · obtain ⟨id, hid, hfinds⟩ := ih h
        exact ⟨id, List.mem_cons_of_mem _ hid, hfinds⟩
      · split at h
        · rename_i haccepted
          exact ⟨next, List.mem_cons_self, .here hnode haccepted⟩
        · split at h
          · cases h
          · obtain ⟨id, hid, hfinds⟩ := ih h
            rcases List.mem_append.1 hid with hid | hid
            · exact ⟨next, List.mem_cons_self, .inside hnode (List.mem_reverse.1 hid) hfinds⟩
            · exact ⟨id, List.mem_cons_of_mem _ hid, hfinds⟩

/-- What is found in a type is not missed in a type with the same structure. -/
theorem Finds.not_within (hfinds : abi.Finds p id) (h : abi.Alike abi' id id')
    (hp : ∀ node node', node.Alike (abi.Alike abi') node' → p node = p node')
    {nodes : TypeId → Prop} (hclosed : ∀ r, nodes r → abi'.Barren p nodes r) :
    ¬abi'.Within nodes id' := by
  induction hfinds generalizing id' with
  | here stands accepted =>
    rintro ⟨resolved', node', hid', hresolved'⟩
    have hlookup := h.lookup
    rw [stands, hid'] at hlookup
    cases hlookup with
    | ok related =>
      have hbarren := (hclosed resolved' hresolved' node' (get?_of_lookup hid')).1
      rw [← hp _ _ related, accepted] at hbarren
      cases hbarren
  | inside stands component _ ih =>
    rintro ⟨resolved', node', hid', hresolved'⟩
    have hlookup := h.lookup
    rw [stands, hid'] at hlookup
    cases hlookup with
    | ok related =>
      obtain ⟨part', hm', hpart'⟩ := exists_right_of_forall₂ related.components component
      exact ih hpart' ((hclosed resolved' hresolved' node' (get?_of_lookup hid')).2 part' hm')

/-- Searches of types with the same structure agree, if both end. -/
theorem Alike.containsNode (h : abi.Alike abi' id id')
    (hp : ∀ R node node', node.Alike R node' → p node = p node') {found found' : Bool}
    (hid : abi.containsNode p id = .ok found) (hid' : abi'.containsNode p id' = .ok found') :
    found = found' := by
  have hmiss {abi abi' : Abi} {id id' : TypeId} (h : abi.Alike abi' id id')
      (hid : abi.containsNode p id = .ok true) (hid' : abi'.containsNode p id' = .ok false) :
      False := by
    obtain ⟨_, hm, hfinds⟩ := finds_of_searchWithin hid
    cases List.mem_singleton.1 hm
    obtain ⟨nodes, -, hwithin, hclosed⟩ := closed_of_searchWithin hid'
    exact hfinds.not_within h (hp _) (fun r hr => hclosed r hr List.not_mem_nil)
      (hwithin id' List.mem_cons_self)
  cases found with
  | true =>
    cases found' with
    | true => rfl
    | false => exact (hmiss h hid hid').elim
  | false =>
    cases found' with
    | true => exact (hmiss h.symm hid' hid).elim
    | false => rfl

theorem Alike.needsDeallocate (h : abi.Alike abi' id id') {owns owns' : Bool}
    (hid : abi.needsDeallocate id = .ok owns) (hid' : abi'.needsDeallocate id' = .ok owns') :
    owns = owns' := by
  refine h.containsNode (fun R node node' hnode => ?_) hid hid'
  cases hnode with
  | valueless left right => cases node <;> cases left <;> cases node' <;> cases right <;> rfl
  | _ => rfl

theorem Alike.ownsHandles (h : abi.Alike abi' id id') {owns owns' : Bool}
    (hid : abi.ownsHandles id = .ok owns) (hid' : abi'.ownsHandles id' = .ok owns') :
    owns = owns' := by
  refine h.containsNode (fun R node node' hnode => ?_) hid hid'
  cases hnode with
  | valueless left right => cases node <;> cases left <;> cases node' <;> cases right <;> rfl
  | _ => rfl

/-! ### Marshaling -/

variable {m : Memory} {words : List Word}

/-- A value is read from words only if its type has words. -/
theorem flatten_of_readWithin {s : Shape} {d : Nat} {r : WordReader} {v : Value × WordReader}
    (h : abi.readWithin m d s r = .ok v) : ∃ kinds, s.flatten = .ok kinds := by
  induction d generalizing s r v with
  | zero => cases h
  | succ d ih =>
    cases s with
    | leaf l =>
      obtain ⟨⟨n, _⟩, -, h⟩ := Except.bind_eq_ok.1 h
      obtain ⟨_, hv, -⟩ := Except.bind_eq_ok.1 h
      have hcheck : l.check = .ok () := by
        cases l with
        | flags name labels => exact (Except.bind_eq_ok.1 hv).choose_spec.1
        | _ => rfl
      exact ⟨[l.core], by rw [Shape.flatten, hcheck]; rfl⟩
    | string | list => exact ⟨_, rfl⟩
    | product kind fields =>
      obtain ⟨values, hread, -⟩ := Except.bind_eq_ok.1 h
      rw [Shape.flatten]
      clear h
      induction fields generalizing r values with
      | nil => exact ⟨[], rfl⟩
      | cons field fields ihfields =>
        obtain ⟨_, hfirst, hread⟩ := Except.bind_eq_ok.1 hread
        obtain ⟨_, hrest, -⟩ := Except.bind_eq_ok.1 hread
        rw [Shape.flattenFields, Except.exists_both_eq_ok]
        exact ⟨ih hfirst, ihfields _ hrest⟩
    | sum kind cases =>
      obtain ⟨slots, hslots, -⟩ := Except.bind_eq_ok.1 h
      exact ⟨.i32 :: slots, by rw [Shape.flatten, hslots]; rfl⟩
    | unsupported | unresolved => cases h

namespace Alike

theorem sameRun_lowerFlat (h : abi.Alike abi' id id') (hw : (abi.shape id).wellNested = true)
    (v : Value) : SameRun Eq (abi.lowerFlat id v) (abi'.lowerFlat id' v) :=
  sameRun_lowerWithin (h.shape hw) _ v

/-- Only values of types with words are passed, so it does not matter how a type is nested. -/
theorem runOn_lowerFlat (h : abi.Alike abi' id id') {v : Value} {ws : List Word} {m' : Memory}
    (hrun : runOn (abi.lowerFlat id v) m = (.ok ws, m')) :
    runOn (abi'.lowerFlat id' v) m = (.ok ws, m') := by
  obtain ⟨kinds, hk⟩ := flatten_of_lowerWithin (Succeeds.of_runOn hrun)
  obtain ⟨hanswer, hmemory⟩ := h.sameRun_lowerFlat (Shape.wellNested_of_flatten _ hk) v m
  rw [hrun] at hanswer hmemory
  exact Prod.ext (hanswer.ok_iff.1 rfl) hmemory.symm

theorem same_liftWithin (h : abi.Alike abi' id id') (hw : (abi.shape id).wellNested = true)
    (d : Nat) :
    SameAnswer Eq (abi.liftWithin m d id words) (abi'.liftWithin m d id' words) := by
  refine (same_readWithin (h.shape hw) d (.ofList words)).bind ?_
  rintro ⟨v, rest⟩ _ rfl
  exact .refl _

/-- The depth at which there is an answer is enough in both graphs. -/
theorem same_liftFlat (h : abi.Alike abi' id id') (hw : (abi.shape id).wellNested = true) :
    SameAnswer Eq (abi.liftFlat m id words) (abi'.liftFlat m id' words) := by
  by_cases hanswer : Unanswered (abi.liftFlat m id words)
  · have hanswer' : Unanswered (abi'.liftFlat m id' words) := by
      by_contra hne
      have hdeep : ¬Unanswered (abi.liftWithin m (abi'.nestingBound m) id words) :=
        mt (h.same_liftWithin hw _).unanswered_iff.1 hne
      exact hdeep (liftFlat_eq_liftWithin hdeep ▸ hanswer)
    rw [hanswer, hanswer']
    exact .refl _
  · have hsame : SameAnswer Eq (abi.liftFlat m id words) (abi'.liftWithin m _ id' words) :=
      h.same_liftWithin hw (abi.nestingBound m)
    rw [liftFlat_eq_liftWithin (mt hsame.unanswered_iff.2 hanswer)]
    exact hsame

theorem liftFlat_eq_ok (h : abi.Alike abi' id id') {v : Value}
    (hlift : abi.liftFlat m id words = .ok v) : abi'.liftFlat m id' words = .ok v := by
  obtain ⟨_, hread, -⟩ := Except.bind_eq_ok.1 hlift
  obtain ⟨kinds, hk⟩ := flatten_of_readWithin hread
  exact (h.same_liftFlat (Shape.wellNested_of_flatten _ hk)).ok_iff.1 hlift

end Alike

/-! ### Results -/

/-- What is computed of a type is the same for every type with the same structure, but for the names
in errors: its words, its layout and the places of its parts, what its values may own, if that can
be found out for both, what values are passed as, and what words stand for. Where types contain
themselves through lists only, values that are not passed leave the same memory and the same error,
and so do words that stand for no value. -/
theorem results_depend_on_structure (h : abi.Alike abi' id id') :
    SameAnswer Eq (abi.flatten id) (abi'.flatten id') ∧
    SameAnswer Eq (abi.layout id) (abi'.layout id') ∧
    (∀ ids ids', List.Forall₂ (abi.Alike abi') ids ids' →
      SameAnswer Eq (abi.fieldOffsets ids) (abi'.fieldOffsets ids')) ∧
    SameAnswer Eq (abi.sumLayout id) (abi'.sumLayout id') ∧
    (∀ owns owns', abi.needsDeallocate id = .ok owns → abi'.needsDeallocate id' = .ok owns' →
      owns = owns') ∧
    (∀ owns owns', abi.ownsHandles id = .ok owns → abi'.ownsHandles id' = .ok owns' →
      owns = owns') ∧
    (∀ v m ws m', runOn (abi.lowerFlat id v) m = (.ok ws, m') ↔
      runOn (abi'.lowerFlat id' v) m = (.ok ws, m')) ∧
    (∀ m ws v, abi.liftFlat m id ws = .ok v ↔ abi'.liftFlat m id' ws = .ok v) ∧
    ((abi.shape id).wellNested = true →
      (∀ v, SameRun Eq (abi.lowerFlat id v) (abi'.lowerFlat id' v)) ∧
      ∀ m ws, SameAnswer Eq (abi.liftFlat m id ws) (abi'.liftFlat m id' ws)) := by
  refine ⟨h.flatten, h.layout, fun _ _ => Alike.fieldOffsets, h.sumLayout,
    fun _ _ => h.needsDeallocate, fun _ _ => h.ownsHandles, ?_, ?_, ?_⟩
  · exact fun v m ws m' => ⟨h.runOn_lowerFlat, h.symm.runOn_lowerFlat⟩
  · exact fun m ws v => ⟨h.liftFlat_eq_ok, h.symm.liftFlat_eq_ok⟩
  · exact fun hw => ⟨h.sameRun_lowerFlat hw, fun m ws => h.same_liftFlat hw⟩

/-- Books with their sequels, which are books as well. -/
def catalog : Abi where
  arena := ⟨#[.scalar .u32, .list ⟨2⟩,
    .record { name := "book" } [("pages", ⟨0⟩), ("sequels", ⟨1⟩)]]⟩

/-- The package of the other catalog. -/
def press : PackageRef :=
  { name := { namespaces := ["ns"], path := ["press"] } }

/-- The same under other names, and with references on every way: the tales are novels, which have
counts for their pages. -/
def reissue : Abi where
  arena := ⟨#[.reference (.named press "novel"), .scalar .u32, .list ⟨0⟩,
    .reference (.named press "count"),
    .record { name := "novel" } [("pages", ⟨3⟩), ("sequels", ⟨2⟩)],
    .reference (.named press "tale")]⟩
  store? := some (PackageStore.insert {} press
    { definitions := { types := ⟨[("count", ⟨1⟩), ("novel", ⟨4⟩), ("tale", ⟨0⟩)]⟩ } })

/-- Which types of the two catalogs belong together. -/
def SameEntry (id id' : TypeId) : Prop :=
  (id.index, id'.index) ∈ [(0, 1), (0, 3), (1, 2), (2, 0), (2, 4), (2, 5)]

instance : DecidableRel SameEntry :=
  fun id id' => inferInstanceAs (Decidable ((id.index, id'.index) ∈ _))

theorem bisimulation_catalog : catalog.Bisimulation reissue SameEntry := by
  have hpages : SameEntry ⟨0⟩ ⟨3⟩ := by decide
  have hsequels : SameEntry ⟨1⟩ ⟨2⟩ := by decide
  have hbook : SameEntry ⟨2⟩ ⟨0⟩ := by decide
  have hrecord : TypeNode.Alike SameEntry
      (.record { name := "book" } [("pages", ⟨0⟩), ("sequels", ⟨1⟩)])
      (.record { name := "novel" } [("pages", ⟨3⟩), ("sequels", ⟨2⟩)]) :=
    .record (.cons ⟨rfl, hpages⟩ (.cons ⟨rfl, hsequels⟩ .nil))
  rintro ⟨i⟩ ⟨i'⟩ h
  simp only [SameEntry, List.mem_cons, Prod.mk.injEq, List.not_mem_nil, or_false] at h
  rcases h with ⟨rfl, rfl⟩ | ⟨rfl, rfl⟩ | ⟨rfl, rfl⟩ | ⟨rfl, rfl⟩ | ⟨rfl, rfl⟩ | ⟨rfl, rfl⟩
  · exact .ok (.scalar .u32)
  · exact .ok (.scalar .u32)
  · exact .ok (.list hbook)
  · exact .ok hrecord
  · exact .ok hrecord
  · exact .ok hrecord

/-- A book with one sequel. -/
def saga : Value :=
  .record [("pages", .u32 7),
    ("sequels", .list [.record [("pages", .u32 9), ("sequels", .list [])]])]

theorem results_depend_on_structure_catalog :
    catalog.Alike reissue ⟨2⟩ ⟨5⟩ ∧ reissue.lookup ⟨5⟩ = reissue.lookup ⟨4⟩ ∧
    reissue.flatten ⟨5⟩ = .ok [.i32, .i32, .i32] ∧ reissue.layout ⟨5⟩ = .ok ⟨12, 4⟩ ∧
    reissue.fieldOffsets [⟨5⟩, ⟨3⟩] = .ok [0, 12] ∧
    ∃ m, runOn (reissue.lowerFlat ⟨5⟩ saga) {} = (.ok [.i32 7, .i32 4, .i32 1], m) ∧
      m.bytes = [0, 0, 0, 0, 9, 0, 0, 0, 4, 0, 0, 0, 0, 0, 0, 0] ∧
      reissue.liftFlat m ⟨5⟩ [.i32 7, .i32 4, .i32 1] = .ok saga := by
  have hbook : catalog.Alike reissue ⟨2⟩ ⟨5⟩ := ⟨SameEntry, bisimulation_catalog, by decide⟩
  have hpages : catalog.Alike reissue ⟨0⟩ ⟨3⟩ := ⟨SameEntry, bisimulation_catalog, by decide⟩
  have hrow : List.Forall₂ (catalog.Alike reissue) [⟨2⟩, ⟨0⟩] [⟨5⟩, ⟨3⟩] :=
    .cons hbook (.cons hpages .nil)
  obtain ⟨hflat, hlayout, hoffsets, -, -, -, hlower, hlift, -⟩ := results_depend_on_structure hbook
  exact ⟨hbook, rfl, hflat.ok_iff.1 rfl, hlayout.ok_iff.1 rfl,
    (hoffsets _ _ hrow).ok_iff.1 rfl, _, (hlower _ _ _ _).1 rfl, rfl, (hlift _ _ _).1 rfl⟩

end Abi

end ComponentAbi
