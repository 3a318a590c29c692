import ComponentAbi.Marshal.Call
import ComponentAbi.Proofs.Marshal.Confinement
import ComponentAbi.Proofs.Marshal.Freeing
import ComponentAbi.Proofs.Marshal.RoundTrip

/-!
# Values in a row

The parameters of a function, or its results, are lowered, lifted and freed as the fields of a tuple
(`Abi.tupleOf`), whether they go through an area in memory or through words. What is known of the
values of one type is stated here for a row of them.
-/

namespace ComponentAbi

open Memory (SameOn bytes_releaseAll releaseAll_nil releaseAll_releaseAll)
open MemoryM

namespace Abi

variable {abi : Abi} {ids : List TypeId} {values : List Value} {ns : List Native} {m : Memory}
  {bs : List Block}

/-- The tuple of some types. -/
def tupleOf (abi : Abi) (ids : List TypeId) : Shape :=
  .product .tuple (abi.fieldsOf ids)

/-- The native values of values in a row. -/
def nativeAll (abi : Abi) (ids : List TypeId) (values : List Value) :
    Except AbiError (List Native) :=
  (ids.zip values).mapM fun (id, v) => abi.native id v

/-- The normal forms of values in a row. -/
def normalizeAll (abi : Abi) (ids : List TypeId) (values : List Value) : List Value :=
  (ids.zip values).map fun (id, v) => abi.normalize id v

/-! ### As one tuple -/

theorem fits_nativeAll (hc : abi.arena.CasesFit) (hl : ids.length = values.length)
    (h : abi.nativeAll ids values = .ok ns) : FitsRow abi (abi.fieldsOf ids) ns := by
  induction ids generalizing values ns with
  | nil => cases h; exact .nil
  | cons id ids ih =>
    cases values with
    | nil => cases hl
    | cons v values =>
      obtain ⟨n, ns, hn, hns, rfl⟩ := Except.mapM_cons_eq_ok.1 h
      exact .cons (fits_nativeWithin hc (indexable_shape hc id) hn) (ih (Nat.succ.inj hl) hns)

theorem valueRow_nativeAll (hc : abi.arena.CasesFit) (h : abi.nativeAll ids values = .ok ns) :
    abi.valueRow (abi.fieldsOf ids) ns = abi.normalizeAll ids values := by
  induction ids generalizing values ns with
  | nil => cases h; rfl
  | cons id ids ih =>
    cases values with
    | nil => cases h; rfl
    | cons v values =>
      obtain ⟨n, ns, hn, hns, rfl⟩ := Except.mapM_cons_eq_ok.1 h
      have hv := value_nativeWithin hc (indexable_shape hc id) hn
      exact congrArg₂ List.cons hv (ih hns)

theorem everyListRow_nativeAll {P : Layout → Nat → Prop} (h : abi.nativeAll ids values = .ok ns)
    (hs : ∀ entry ∈ ids.zip values, ∀ n, abi.native entry.1 entry.2 = .ok n →
      EveryList abi P (abi.shape entry.1) n) : EveryListRow abi P (abi.fieldsOf ids) ns := by
  induction ids generalizing values ns with
  | nil => cases h; trivial
  | cons id ids ih =>
    cases values with
    | nil => cases h; trivial
    | cons v values =>
      obtain ⟨n, ns, hn, hns, rfl⟩ := Except.mapM_cons_eq_ok.1 h
      obtain ⟨hv, hrest⟩ := List.forall_mem_cons.1 hs
      exact ⟨hv n hn, ih hns hrest⟩

theorem storeFields_native (h : abi.nativeAll ids values = .ok ns) (p : Nat) :
    abi.storeFields ids values p = abi.storeNative (abi.tupleOf ids) (.product ns) p := by
  refine bind_congr fun offsets => ?_
  induction ids generalizing values ns offsets with
  | nil => cases h; rfl
  | cons id ids ih =>
    cases values with
    | nil => cases h; cases offsets <;> rfl
    | cons v values =>
      obtain ⟨n, ns, hn, hns, rfl⟩ := Except.mapM_cons_eq_ok.1 h
      cases offsets with
      | nil => rfl
      | cons offset offsets =>
        have hstore := storeWithin_native hn (p + offset)
        exact congrArg₂ (fun x y => x >>= fun _ => y) hstore (ih hns offsets)

theorem lowerAll_native (h : abi.nativeAll ids values = .ok ns) :
    abi.lowerAll ids values = abi.lowerNative (abi.tupleOf ids) (.product ns) := by
  change abi.lowerAll ids values = abi.lowerRow (abi.fieldsOf ids) ns
  induction ids generalizing values ns with
  | nil => cases h; rfl
  | cons id ids ih =>
    cases values with
    | nil => cases h; rfl
    | cons v values =>
      obtain ⟨n, ns, hn, hns, rfl⟩ := Except.mapM_cons_eq_ok.1 h
      have hlower := lowerWithin_native hn
      rw [show abi.fieldsOf (id :: ids) = ("", abi.shape id) :: abi.fieldsOf ids from rfl, lowerRow,
        ← hlower, ← ih hns, lowerAll, lowerAll, List.zip_cons_cons, List.mapM_cons]
      simp only [bind_assoc, pure_bind, List.flatten_cons]
      rfl

theorem nativeAll_of_lowerAll (h : (abi.lowerAll ids values).Succeeds) :
    ∃ ns, abi.nativeAll ids values = .ok ns :=
  Except.mapM_eq_ok_of_forall fun _ hm => native_of_lowerWithin (h.bind.1.mapM hm)

theorem nativeAll_of_storeFields {p : Nat} (h : (abi.storeFields ids values p).Succeeds) :
    ∃ ns, abi.nativeAll ids values = .ok ns := by
  obtain ⟨offsets, ho, h⟩ := h.bind_liftM
  refine Except.mapM_eq_ok_of_forall fun entry hm => ?_
  have hle : (ids.zip values).length ≤ offsets.length := by
    rw [Shape.length_fieldOffsets ho, fieldsOf, List.length_map, List.length_zip]
    omega
  rw [← List.map_fst_zip hle] at hm
  obtain ⟨⟨⟨id, v⟩, offset⟩, hplace, rfl⟩ := List.mem_map.1 hm
  exact native_of_storeWithin (h.forM hplace)

/-! ### Whatever the outcome -/

theorem confined_lowerAll : Confined 0 0 m (abi.lowerAll ids values) :=
  (confined_mapM (fun entry _ m => confined_lowerWithin entry.2 m) m).bind fun _ _ _ _ =>
    confined_pure _

theorem confined_storeFields {area : Layout} (hl : abi.sequenceLayout ids = .ok area) (p : Nat) :
    Confined p (p + area.size) m (abi.storeFields ids values p) := by
  refine Confined.bind_liftM fun offsets ho => ?_
  have hplaced := @Shape.placed_fields _ _ .tuple _ ho hl p
  have hfields := confined_forM_fields (fun s v p => abi.storeWithin (v.depth + 1) s v p) hplaced
    (fun s l hl v p m => confined_storeWithin hl v p m) values m
  rw [fieldsOf, List.zip_map_left, List.zip_map_left, List.forM_eq_forM, List.forM_map] at hfields
  exact hfields

/-! ### Reading and freeing -/

theorem depthFor_fieldsOf (hf : FitsRow abi (abi.fieldsOf ids) ns) (hb : bs.length ≤ m.size) :
    ∀ field ∈ abi.fieldsOf ids, abi.DepthFor field.2 bs (abi.nestingBound m) := by
  induction ids generalizing ns with
  | nil => exact fun _ hm => absurd hm List.not_mem_nil
  | cons id ids ih =>
    cases hf with
    | cons head tail =>
      exact List.forall_mem_cons.2 ⟨enough_depth (not_unresolved_of_fits head) hb, ih tail⟩

theorem loadFields_of_stored {p : Nat} (hf : FitsRow abi (abi.fieldsOf ids) ns)
    (h : Stored abi m (abi.tupleOf ids) (.product ns) p bs)
    (hs : EveryListRow abi (Layout.Readable m.size) (abi.fieldsOf ids) ns)
    (hb : bs.length ≤ m.size) :
    abi.loadFields m ids p = .ok (abi.valueRow (abi.fieldsOf ids) ns) := by
  cases h with
  | product offset row =>
    have hlen := Shape.length_fieldOffsets offset
    have hrow := row.load (everyList_row hlen p hs) fun place hm => by
      obtain ⟨field, hfield, he⟩ := Shape.mem_row hm
      exact he ▸ depthFor_fieldsOf hf hb field hfield
    rw [valuesAt_row hlen, Shape.row, List.mapM_map, fieldsOf, List.zip_map_left,
      List.mapM_map] at hrow
    exact Except.bind_eq_ok.2 ⟨_, offset, hrow⟩

theorem nestingBound_of_bytes {m' : Memory} (h : m'.bytes = m.bytes) :
    abi.nestingBound m' = abi.nestingBound m := by
  rw [nestingBound, nestingBound, Memory.size, Memory.size, h]

/-- Freeing does not change the bytes that the bound on its depth is read off. -/
theorem runOn_freeStored {m' : Memory} {id : TypeId} {n : Native} {p : Nat}
    (h : Stored abi m (abi.shape id) n p bs) (hm : m'.bytes = m.bytes) (ho : m'.Owns bs)
    (hd : abi.DepthFor (abi.shape id) bs (abi.nestingBound m)) :
    runOn (abi.freeStored id p) m' = (.ok (), m'.releaseAll (Block.starts bs)) := by
  rw [freeStored, runOn_bind_of_ok (runOn_get m'), nestingBound_of_bytes hm]
  exact h.free hm ho hd

theorem runOn_freeRow {m' : Memory} {offsets : List Nat} {p : Nat}
    (h : StoredRow abi m (Shape.row (abi.fieldsOf ids) offsets p) ns bs)
    (hm : m'.bytes = m.bytes) (ho : m'.Owns bs)
    (hd : ∀ field ∈ abi.fieldsOf ids, abi.DepthFor field.2 bs (abi.nestingBound m)) :
    runOn ((ids.zip offsets).forM fun (id, offset) => abi.freeStored id (p + offset)) m' =
      (.ok (), m'.releaseAll (Block.starts bs)) := by
  induction ids generalizing m' offsets ns bs with
  | nil =>
    cases h
    rw [Block.starts, List.map_nil, releaseAll_nil]
    rfl
  | cons id ids ih =>
    cases offsets with
    | nil =>
      cases h
      rw [Block.starts, List.map_nil, releaseAll_nil]
      rfl
    | cons offset offsets =>
      cases h with
      | cons head tail =>
        obtain ⟨hd, hdrest⟩ := List.forall_mem_cons.1 hd
        have hhead := runOn_freeStored head hm ho.left
          (hd.mono (Nat.le_refl _) (by rw [List.length_append]; omega))
        have htail := ih tail ((bytes_releaseAll m' _).trans hm) ho.after fun field hf =>
          (hdrest field hf).mono (Nat.le_refl _) (by rw [List.length_append]; omega)
        rw [← ho.releaseAll_after]
        exact (runOn_bind_of_ok hhead _).trans htail

theorem runOn_freeFields {m' : Memory} {p : Nat} (hf : FitsRow abi (abi.fieldsOf ids) ns)
    (h : Stored abi m (abi.tupleOf ids) (.product ns) p bs) (hm : m'.bytes = m.bytes)
    (ho : m'.Owns bs) (hb : bs.length ≤ m.size) :
    runOn (abi.freeFields ids p) m' = (.ok (), m'.releaseAll (Block.starts bs)) := by
  cases h with
  | product offset row =>
    exact (runOn_bind_liftM offset _ m').trans
      (runOn_freeRow row hm ho (depthFor_fieldsOf hf hb))

/-- Freeing a value in words. -/
theorem runOn_freeFlat {id : TypeId} {n : Native} {ws : List Word}
    (h : Carried abi m (abi.shape id) n ws bs) (ho : m.Owns bs)
    (hd : abi.DepthFor (abi.shape id) bs (abi.nestingBound m)) :
    runOn (abi.freeFlat id ws) m = (.ok (), m.releaseAll (Block.starts bs)) := by
  have hfree := h.free 0 [] rfl ho hd
  rw [List.append_nil] at hfree
  rw [freeFlat, runOn_bind_of_ok (runOn_get m)]
  exact runOn_bind_of_ok hfree _

/-! ### Parameters in words -/

/-- What became of the blocks of some values that were taken in: some of them were freed, and all of
them if the answer is not an error. -/
structure Taken (m : Memory) (bs : List Block) (outcome : Except AbiError (List Value) × Memory) :
    Prop where
  freed : ∃ ps, (∀ p ∈ ps, p ∈ Block.starts bs) ∧ outcome.2 = m.releaseAll ps
  all : ∀ vs, outcome.1 = .ok vs → outcome.2 = m.releaseAll (Block.starts bs)

theorem taken_error (e : AbiError) : Taken m bs (.error e, m) :=
  ⟨⟨[], fun _ h => absurd h List.not_mem_nil, (releaseAll_nil m).symm⟩, fun _ h => by cases h⟩

theorem taken_of_all {outcome : Except AbiError (List Value) × Memory}
    (h : outcome.2 = m.releaseAll (Block.starts bs)) : Taken m bs outcome :=
  ⟨⟨_, fun _ h => h, h⟩, fun _ _ => h⟩

theorem Taken.after {b₁ b₂ : List Block} {outcome : Except AbiError (List Value) × Memory}
    (h : Taken (m.releaseAll (Block.starts b₁)) b₂ outcome) (ho : m.Owns (b₁ ++ b₂))
    (f : List Value → List Value) : Taken m (b₁ ++ b₂) (outcome.1.map f, outcome.2) where
  freed := by
    obtain ⟨ps, hps, he⟩ := h.freed
    refine ⟨Block.starts b₁ ++ ps, fun p hp => ?_, ?_⟩
    · rw [Block.starts, List.map_append]
      exact (List.mem_append.1 hp).elim (List.mem_append_left _) fun hp =>
        List.mem_append_right _ (hps p hp)
    · rw [he, releaseAll_releaseAll fun p hp hp' => ho.disjoint p hp (hps p hp')]
  all vs hvs := by
    obtain ⟨vs', hvs', -⟩ := Except.map_eq_ok.1 hvs
    rw [h.all vs' hvs', ho.releaseAll_after]

/-- The first parameter takes the words that its type has. -/
theorem runOn_liftParamWords_cons (front tail : List Word) {id : TypeId} {first : List CoreType}
    {w₁ : List Word} (hfirst : (abi.shape id).flatten = .ok first)
    (hcount : first.length = w₁.length) (w₂ : List Word) (m : Memory) :
    runOn (abi.liftParamWords (front ++ (w₁ ++ w₂) ++ tail) front.length (id :: ids)) m =
      runOn (do
        let v ← reading (abi.liftFlat · id w₁)
        abi.freeFlat id w₁
        let more ← abi.liftParamWords (front ++ (w₁ ++ w₂) ++ tail) (front.length + w₁.length) ids
        return v :: more) m := by
  have hroom : ¬front.length + w₁.length > (front ++ (w₁ ++ w₂) ++ tail).length := by
    simp only [List.length_append]
    omega
  have hown : ((front ++ (w₁ ++ w₂) ++ tail).drop front.length).take w₁.length = w₁ := by
    simp
  rw [liftParamWords, flatten, hfirst]
  refine (runOn_bind_of_ok (runOn_liftM _ m) _).trans ?_
  simp only [hcount, if_neg hroom, hown]

/-- Each parameter is lifted and freed before the next one is. -/
theorem runOn_liftParamWords (front tail : List Word) {ws : List Word} {kinds : List CoreType}
    (hf : FitsRow abi (abi.fieldsOf ids) ns) (h : CarriedRow abi m (abi.fieldsOf ids) ns ws bs)
    (hk : Shape.flattenFields (abi.fieldsOf ids) = .ok kinds) (ho : m.Owns bs)
    (hb : bs.length ≤ m.size) :
    Taken m bs (runOn (abi.liftParamWords (front ++ ws ++ tail) front.length ids) m) ∧
      (EveryListRow abi (Layout.Readable m.size) (abi.fieldsOf ids) ns →
        runOn (abi.liftParamWords (front ++ ws ++ tail) front.length ids) m =
          (.ok (abi.valueRow (abi.fieldsOf ids) ns), m.releaseAll (Block.starts bs))) := by
  induction ids generalizing m front ns ws bs kinds with
  | nil =>
    cases h
    have hrun : runOn (abi.liftParamWords (front ++ [] ++ tail) front.length []) m =
        (.ok [], m.releaseAll (Block.starts [])) := by
      rw [Block.starts, List.map_nil, releaseAll_nil]
      rfl
    rw [hrun]
    exact ⟨taken_of_all rfl, fun _ => rfl⟩
  | cons id ids ih =>
    cases h with
    | @cons _ _ _ n ns w₁ w₂ b₁ b₂ head tail' =>
      cases hf with
      | cons hf hfrest =>
        rw [fieldsOf, List.map_cons, Shape.flattenFields] at hk
        obtain ⟨first, hfirst, hk⟩ := Except.bind_eq_ok.1 hk
        obtain ⟨more, hmore, -⟩ := Except.bind_eq_ok.1 hk
        have hcount : first.length = w₁.length := by
          rw [← head.kinds hfirst, List.length_map]
        rw [List.length_append] at hb
        have hb₁ : b₁.length ≤ m.size := by omega
        have hd := enough_depth (not_unresolved_of_fits hf) hb₁
        have hfree := runOn_freeFlat head ho.left hd
        have htail (bs : List Block) :
            CarriedRow abi (m.releaseAll (Block.starts bs)) (abi.fieldsOf ids) ns w₂ b₂ :=
          tail'.frame (fun _ _ => SameOn.refl m) (Nat.le_refl _)
        have hrest := ih (front ++ w₁) hfrest (htail b₁) hmore ho.after
          (show b₂.length ≤ m.size by omega)
        rw [List.length_append, List.append_assoc front] at hrest
        have hlifted : runOn (reading (abi.liftFlat · id w₁)) m = (abi.liftFlat m id w₁, m) :=
          runOn_reading _ m
        rw [runOn_liftParamWords_cons front tail hfirst hcount]
        cases hlift : abi.liftFlat m id w₁ with
        | error e =>
          rw [hlift] at hlifted
          rw [runOn_bind_of_error hlifted]
          refine ⟨taken_error e, fun hs => ?_⟩
          have hok := liftFlat_of_carried hf head hs.1 hb₁
          rw [hlift] at hok
          cases hok
        | ok v =>
          rw [hlift] at hlifted
          rw [runOn_bind_of_ok hlifted, runOn_bind_of_ok hfree, bind_pure_comp, runOn_map]
          refine ⟨hrest.1.after ho _, fun hs => ?_⟩
          have hok := liftFlat_of_carried hf head hs.1 hb₁
          rw [hlift] at hok
          cases hok
          rw [hrest.2 hs.2, ho.releaseAll_after]
          rfl

end Abi

end ComponentAbi
