import ComponentAbi.Marshal.Free
import ComponentAbi.Marshal.Lower
import ComponentAbi.Proofs.Memory.Growth
import ComponentAbi.Proofs.Native.Lower

/-!
# What lowering may write to

Whether lowering succeeds or not, and whatever value it is given, it only hands out blocks and
writes into them, and into the area it was told to store a value in (`Abi.confined_storeWithin`,
`Abi.confined_lowerWithin`). For values that lower, more is known of the outcome; this is what can
be said of those that fail on the way. Freeing values and lowering native ones never shrinks the
memory either (`Abi.neverShrinks_freeFlatWithin`, `Abi.neverShrinks_storeNative`).
-/

namespace ComponentAbi

open Memory MemoryM

variable {lo hi : Nat} {m : Memory}

theorem confined_lowerString (text : String) : Confined lo hi m (lowerString text) :=
  Confined.bind_alloc Nat.one_pos fun start _ =>
    (confined_write start text.toUTF8.toList).bind fun _ _ _ _ => confined_pure _

theorem confined_storePair (p : Nat) (pair : Nat × Nat) :
    Confined p (p + 8) m (storePair p pair) := by
  have hfirst : Confined p (p + 8) m (writeNat p 4 pair.1) :=
    (confined_writeNat p 4 pair.1).widen fun i _ h h' => by omega
  refine hfirst.bind fun _ m' _ _ => ?_
  exact (confined_writeNat (p + 4) 4 pair.2).widen fun i _ h h' => by omega

theorem SumKind.mem_of_select {kind : SumKind} {cases : List (String × Option Shape)} {v : Value}
    {index : Nat} {s : Shape} {payload : Value}
    (h : kind.select cases v = .ok (index, some (s, payload))) :
    ∃ label, (label, some s) ∈ cases := by
  obtain ⟨⟨i, given⟩, -, h⟩ := Except.bind_eq_ok.1 h
  obtain ⟨paired, hp, h⟩ := Except.bind_eq_ok.1 h
  cases h
  cases hcase : cases[index]? with
  | none => cases given <;> simp [hcase, pairPayload] at hp
  | some case =>
    obtain ⟨label, inner⟩ := case
    cases inner <;> cases given <;> simp [hcase, pairPayload] at hp
    obtain ⟨rfl, rfl⟩ := hp
    exact ⟨label, List.mem_of_getElem? hcase⟩

theorem Shape.Placed.of_mem {places : List (Shape × Nat)} (h : Shape.Placed lo hi places)
    {place : Shape × Nat} (hm : place ∈ places) :
    ∃ l, place.1.layout = .ok l ∧ lo ≤ place.2 ∧ place.2 + l.size ≤ hi := by
  induction places generalizing lo with
  | nil => cases hm
  | cons first places ih =>
    obtain ⟨l, hl, hle, hrest⟩ := h
    rcases List.mem_cons.1 hm with rfl | hm
    · exact ⟨l, hl, hle, hrest.le⟩
    · obtain ⟨l', hl', hle', hend⟩ := ih hrest hm
      exact ⟨l', hl', by omega, hend⟩

namespace Abi

variable {abi : Abi}

theorem confined_lowerItems {store : Shape → Value → Nat → MemoryM Unit} {element : TypeId}
    (hs : ∀ l, (abi.shape element).layout = .ok l → ∀ v p m,
      Confined p (p + l.size) m (store (abi.shape element) v p)) (items : List Value) :
    Confined lo hi m (abi.lowerItems store element items) := by
  refine Confined.bind_liftM fun layout hl => ?_
  refine Confined.bind_alloc (Shape.align_pos hl) fun start m' => ?_
  refine Confined.bind (confined_forM (fun entry hm m => ?_) m') fun _ _ _ _ => confined_pure _
  obtain ⟨item, i⟩ := entry
  have hi := (List.mem_zipIdx hm).2.1
  have hle : (i + 1) * layout.size ≤ items.length * layout.size :=
    Nat.mul_le_mul_right _ (by omega)
  rw [Nat.succ_mul, Nat.mul_comm items.length] at hle
  exact (hs layout hl item (start + i * layout.size) m).widen fun j _ h h' => by omega

/-- What is stored in the fields of an area is stored in the area. -/
theorem confined_forM_fields {α : Type} {fields : List (String × Shape)} {offsets : List Nat}
    {p : Nat} (store : Shape → α → Nat → MemoryM Unit)
    (hp : Shape.Placed lo hi (Shape.row fields offsets p))
    (hs : ∀ s l, s.layout = .ok l → ∀ x p m, Confined p (p + l.size) m (store s x p))
    (items : List α) (m : Memory) :
    Confined lo hi m (((fields.zip items).zip offsets).forM
      fun (((_, field), item), offset) => store field item (p + offset)) := by
  refine confined_forM (fun entry hm m => ?_) m
  obtain ⟨⟨⟨label, field⟩, item⟩, offset⟩ := entry
  obtain ⟨i, hi⟩ := List.mem_iff_getElem?.1 hm
  obtain ⟨hitem, hoffset⟩ := List.getElem?_zip_eq_some.1 hi
  have hzip : ((label, field), offset) ∈ fields.zip offsets :=
    List.mem_iff_getElem?.2 ⟨i, List.getElem?_zip_eq_some.2
      ⟨(List.getElem?_zip_eq_some.1 hitem).1, hoffset⟩⟩
  obtain ⟨l, hl, hle, hend⟩ := hp.of_mem (List.mem_map_of_mem hzip)
  exact (hs field l hl item (p + offset) m).widen fun j _ h h' => by
    change p + offset + l.size ≤ _ at hend
    change _ ≤ p + offset at hle
    omega

/-- Storing a value at an address only writes into the area of its type. -/
theorem confined_storeWithin {d : Nat} {s : Shape} {l : Layout} (hl : s.layout = .ok l) (v : Value)
    (p : Nat) (m : Memory) : Confined p (p + l.size) m (abi.storeWithin d s v p) := by
  induction d generalizing s l v p m with
  | zero => exact confined_throw _
  | succ d ih =>
    cases s with
    | leaf lf =>
      obtain ⟨_, -, rfl⟩ := Except.map_eq_ok.1 (Shape.layout.eq_1 lf ▸ hl)
      exact Confined.bind_liftM fun bits _ => confined_writeNat p lf.width bits
    | string =>
      cases hl
      cases v with
      | string text =>
        exact (confined_lowerString text).bind fun pair _ _ _ => confined_storePair p pair
      | _ => exact confined_throw _
    | list element =>
      cases hl
      cases v with
      | list items =>
        exact (confined_lowerItems (fun l hl => ih hl) items).bind fun pair _ _ _ =>
          confined_storePair p pair
      | _ => exact confined_throw _
    | product kind fields =>
      refine Confined.bind_liftM fun parts _ => Confined.bind_liftM fun offsets ho => ?_
      refine confined_forM_fields (fun s part p => do abi.storeWithin d s (← liftM part) p)
        (Shape.placed_fields ho hl p) (fun s l hl part p m => ?_) parts m
      exact Confined.bind_liftM fun v _ => ih hl v p m
    | sum kind cases =>
      refine Confined.bind_liftM fun selected hsel => Confined.bind_liftM fun sl hsl => ?_
      cases (Shape.layout_sum hsl).symm.trans hl
      obtain ⟨-, hd, ho, hin⟩ := Shape.payload_inside hsl
      have hsize : sl.layout.size = sl.size := rfl
      obtain ⟨index, payload⟩ := selected
      have hindex : Confined p (p + sl.layout.size) m (writeNat p sl.discriminantSize index) :=
        (confined_writeNat p _ index).widen fun i _ h h' => by omega
      refine hindex.bind fun _ m' _ _ => ?_
      cases payload with
      | none => exact confined_pure _
      | some paired =>
        obtain ⟨label, hm⟩ := SumKind.mem_of_select hsel
        obtain ⟨l', hl', hend⟩ := hin label _ hm
        exact (ih hl' paired.2 _ m').widen fun i _ h h' => by omega
    | unsupported => exact confined_throw _
    | unresolved => exact confined_throw _

/-- Passing a value as words only writes into new blocks. -/
theorem confined_lowerWithin {d : Nat} {s : Shape} (v : Value) (m : Memory) :
    Confined 0 0 m (abi.lowerWithin d s v) := by
  induction d generalizing s v m with
  | zero => exact confined_throw _
  | succ d ih =>
    cases s with
    | leaf lf => exact Confined.bind_liftM fun bits _ => confined_pure _
    | string =>
      cases v with
      | string text => exact (confined_lowerString text).bind fun pair _ _ _ => confined_pure _
      | _ => exact confined_throw _
    | list element =>
      cases v with
      | list items =>
        exact (confined_lowerItems (fun l hl v p m => confined_storeWithin hl v p m) items).bind
          fun pair _ _ _ => confined_pure _
      | _ => exact confined_throw _
    | product kind fields =>
      refine Confined.bind_liftM fun parts _ => ?_
      refine Confined.bind (confined_mapM (fun entry _ m => ?_) m) fun _ _ _ _ => confined_pure _
      exact Confined.bind_liftM fun v _ => ih v m
    | sum kind cases =>
      refine Confined.bind_liftM fun selected _ => Confined.bind_liftM fun slots _ => ?_
      obtain ⟨index, payload⟩ := selected
      cases payload with
      | none => exact (confined_pure _).bind fun _ _ _ _ =>
          Confined.bind_liftM fun filled _ => confined_pure _
      | some paired => exact (ih paired.2 m).bind fun _ _ _ _ =>
          Confined.bind_liftM fun filled _ => confined_pure _
    | unsupported => exact confined_throw _
    | unresolved => exact confined_throw _

/-! ### Freeing -/

theorem neverShrinks_forRange {step : Nat → MemoryM Unit} (hs : ∀ i, NeverShrinks (step i))
    (first count : Nat) : NeverShrinks (forRange step first count) := by
  induction count generalizing first with
  | zero => exact neverShrinks_pure _
  | succ count ih => exact (hs first).bind fun _ => ih (first + 1)

theorem neverShrinks_freeItems {free : Shape → Nat → MemoryM Unit}
    (hf : ∀ s p, NeverShrinks (free s p)) (element : TypeId) (start length : Nat) :
    NeverShrinks (abi.freeItems free element start length) := by
  refine (neverShrinks_liftM _).bind fun layout => ?_
  dsimp only
  split
  · exact (neverShrinks_forRange (fun i => hf _ _) 0 length).bind fun _ => neverShrinks_free _ _ _
  · exact neverShrinks_free _ _ _

/-- Freeing what is stored somewhere never makes a memory smaller, whatever is stored there. -/
theorem neverShrinks_freeStoredWithin (d : Nat) (s : Shape) (p : Nat) :
    NeverShrinks (abi.freeStoredWithin d s p) := by
  induction d generalizing s p with
  | zero => exact neverShrinks_throw _
  | succ d ih =>
    cases s with
    | leaf | unsupported => exact neverShrinks_pure _
    | string => exact (neverShrinks_reading _).bind fun _ => neverShrinks_free _ _ _
    | list element =>
      exact (neverShrinks_reading _).bind fun _ => neverShrinks_freeItems ih element _ _
    | product kind fields =>
      exact (neverShrinks_liftM _).bind fun _ => neverShrinks_forM fun entry => ih _ _
    | sum kind cases =>
      refine (neverShrinks_liftM _).bind fun layout => (neverShrinks_reading _).bind fun index => ?_
      refine (neverShrinks_liftM _).bind fun case => ?_
      obtain ⟨label, payload⟩ := case
      cases payload with
      | none => exact neverShrinks_pure _
      | some s => exact ih s _
    | unresolved => exact neverShrinks_throw _

theorem neverShrinks_freeFieldsWith {free : Shape → WordReader → MemoryM WordReader}
    (hf : ∀ s r, NeverShrinks (free s r)) (fields : List (String × Shape)) (r : WordReader) :
    NeverShrinks (freeFieldsWith free fields r) := by
  induction fields generalizing r with
  | nil => exact neverShrinks_pure _
  | cons field fields ih => exact (hf field.2 r).bind fun r => ih r

/-- Nor does freeing what some words stand for. -/
theorem neverShrinks_freeFlatWithin (d : Nat) (s : Shape) (r : WordReader) :
    NeverShrinks (abi.freeFlatWithin d s r) := by
  induction d generalizing s r with
  | zero => exact neverShrinks_throw _
  | succ d ih =>
    cases s with
    | leaf | unsupported =>
      exact (neverShrinks_liftM _).bind fun _ => (neverShrinks_liftM _).bind fun _ =>
        neverShrinks_pure _
    | string =>
      refine (neverShrinks_liftM _).bind fun _ => (neverShrinks_liftM _).bind fun _ => ?_
      exact (neverShrinks_free _ _ _).bind fun _ => neverShrinks_pure _
    | list element =>
      refine (neverShrinks_liftM _).bind fun _ => (neverShrinks_liftM _).bind fun _ => ?_
      exact (neverShrinks_freeItems (neverShrinks_freeStoredWithin d) element _ _).bind fun _ =>
        neverShrinks_pure _
    | product kind fields => exact neverShrinks_freeFieldsWith ih fields r
    | sum kind cases =>
      refine (neverShrinks_liftM _).bind fun slots => (neverShrinks_liftM _).bind fun index => ?_
      refine (neverShrinks_liftM _).bind fun words => (neverShrinks_liftM _).bind fun case => ?_
      obtain ⟨label, payload⟩ := case
      cases payload with
      | none => exact neverShrinks_pure _
      | some s =>
        dsimp only
        split
        · refine (neverShrinks_liftM _).bind fun own => (ih s _).bind fun rest => ?_
          exact (neverShrinks_liftM _).bind fun _ => neverShrinks_pure _
        · exact neverShrinks_pure _
    | unresolved => exact neverShrinks_throw _

/-! ### Lowering native values -/

theorem neverShrinks_inBlock (element : TypeId) (count : Nat)
    {fill : List (Shape × Nat) → MemoryM Unit} (hf : ∀ places, NeverShrinks (fill places)) :
    NeverShrinks (abi.inBlock element count fill) :=
  (neverShrinks_liftM _).bind fun _ => (neverShrinks_alloc _ _).bind fun _ => (hf _).bind fun _ =>
    neverShrinks_pure _

theorem neverShrinks_storePair (p : Nat) (pair : Nat × Nat) : NeverShrinks (storePair p pair) :=
  neverShrinks_of_confined fun _ => confined_storePair p pair

theorem neverShrinks_lowerString (text : String) : NeverShrinks (lowerString text) :=
  neverShrinks_of_confined fun _ => @confined_lowerString 0 0 _ text

mutual

theorem neverShrinks_storeNative : (n : Native) → (s : Shape) → (p : Nat) →
    NeverShrinks (abi.storeNative s n p)
  | .atom a, s, p => by
    cases s with
    | leaf l => exact (neverShrinks_liftM _).bind fun _ => neverShrinks_writeNat _ _ _
    | _ => exact neverShrinks_throw _
  | .text text, s, p => by
    cases s with
    | string => exact (neverShrinks_lowerString text).bind fun _ => neverShrinks_storePair _ _
    | _ => exact neverShrinks_throw _
  | .list items, s, p => by
    cases s with
    | list element =>
      exact (neverShrinks_inBlock _ _ (neverShrinks_storeRow items)).bind fun _ =>
        neverShrinks_storePair _ _
    | _ => exact neverShrinks_throw _
  | .product parts, s, p => by
    cases s with
    | product kind fields =>
      exact (neverShrinks_liftM _).bind fun _ => neverShrinks_storeRow parts _
    | _ => exact neverShrinks_throw _
  | .sum index payload, s, p => by
    cases s with
    | sum kind cases =>
      exact (neverShrinks_liftM _).bind fun _ => (neverShrinks_writeNat _ _ _).bind fun _ =>
        neverShrinks_storePayload payload _ _
    | _ => exact neverShrinks_throw _

theorem neverShrinks_storeRow : (ns : List Native) → (places : List (Shape × Nat)) →
    NeverShrinks (abi.storeRow places ns)
  | [], [] | [], _ :: _ | _ :: _, [] => neverShrinks_pure _
  | n :: ns, (s, p) :: places =>
    (neverShrinks_storeNative n s p).bind fun _ => neverShrinks_storeRow ns places

theorem neverShrinks_storePayload : (payload : Option Native) → (s? : Option Shape) → (p : Nat) →
    NeverShrinks (abi.storePayload s? payload p)
  | none, none, _ | none, some _, _ | some _, none, _ => neverShrinks_pure _
  | some n, some s, p => neverShrinks_storeNative n s p

end

mutual

theorem neverShrinks_lowerNative : (n : Native) → (s : Shape) → NeverShrinks (abi.lowerNative s n)
  | .atom a, s => by
    cases s with
    | leaf l => exact (neverShrinks_liftM _).bind fun _ => neverShrinks_pure _
    | _ => exact neverShrinks_throw _
  | .text text, s => by
    cases s with
    | string => exact (neverShrinks_lowerString text).bind fun _ => neverShrinks_pure _
    | _ => exact neverShrinks_throw _
  | .list items, s => by
    cases s with
    | list element =>
      exact (neverShrinks_inBlock _ _ (neverShrinks_storeRow items)).bind fun _ =>
        neverShrinks_pure _
    | _ => exact neverShrinks_throw _
  | .product parts, s => by
    cases s with
    | product kind fields => exact neverShrinks_lowerRow parts _
    | _ => exact neverShrinks_throw _
  | .sum index payload, s => by
    cases s with
    | sum kind cases =>
      exact (neverShrinks_liftM _).bind fun _ => (neverShrinks_lowerPayload payload _).bind fun _ =>
        (neverShrinks_liftM _).bind fun _ => neverShrinks_pure _
    | _ => exact neverShrinks_throw _

theorem neverShrinks_lowerRow : (ns : List Native) → (fields : List (String × Shape)) →
    NeverShrinks (abi.lowerRow fields ns)
  | [], [] | [], _ :: _ | _ :: _, [] => neverShrinks_pure _
  | n :: ns, (_, s) :: fields =>
    (neverShrinks_lowerNative n s).bind fun _ => (neverShrinks_lowerRow ns fields).bind fun _ =>
      neverShrinks_pure _

theorem neverShrinks_lowerPayload : (payload : Option Native) → (s? : Option Shape) →
    NeverShrinks (abi.lowerPayload s? payload)
  | none, none | none, some _ | some _, none => neverShrinks_pure _
  | some n, some s => neverShrinks_lowerNative n s

end

end Abi

end ComponentAbi
