import ComponentAbi.Proofs.Except
import ComponentAbi.Proofs.Memory.Run

/-!
# How lowering changes a memory

Lowering hands out blocks at the end of the memory and writes into them, and apart from that it
only writes into the range it was given. `Memory.Grows` says so of two memories: it names the
blocks that were handed out between them and the range whose old bytes may differ. It composes
along a run (`Memory.Grows.trans`), and what lies outside the range is read as before
(`Memory.Grows.sameOn`, `Memory.SameOn.read`).

* `Memory.grows_alloc`, `Memory.grows_write` : the two steps lowering is made of;
* `MemoryM.Confined` : the same of a step, whatever its answer, with one rule for every way in which
  steps are put together.
-/

namespace ComponentAbi

/-- A block that is waiting to be freed. -/
structure Block.Held (b : Block) : Prop where
  /-- Blocks are never empty. -/
  size_pos : 0 < b.size
  /-- Nor is their alignment zero. -/
  align_pos : 0 < b.align
  /-- It was not freed yet. -/
  live : b.live = true

/-- The block that is handed out for an area, if the area is not empty. -/
def Block.ofArea (start size align : Nat) : List Block :=
  if size = 0 then [] else [⟨start, size, align, true⟩]

theorem Block.ofArea_of_pos {start size align : Nat} (h : 0 < size) :
    ofArea start size align = [⟨start, size, align, true⟩] := by
  rw [ofArea, if_neg (Nat.ne_of_gt h)]

namespace Memory

variable {m m₁ m₂ m' : Memory} {lo hi lo' hi' size align : Nat} {bs bs₁ bs₂ : List Block}

/-! ### Blocks in a row -/

/-- The blocks are waiting to be freed, and follow one another between the addresses `lo` and
`hi`. -/
def Packed : Nat → Nat → List Block → Prop
  | lo, hi, [] => lo ≤ hi
  | lo, hi, b :: rest => lo ≤ b.start ∧ b.Held ∧ Packed (b.start + b.size) hi rest

theorem Packed.le (h : Packed lo hi bs) : lo ≤ hi := by
  induction bs generalizing lo with
  | nil => exact h
  | cons b rest ih =>
    obtain ⟨hb, -, hr⟩ := h
    have := ih hr
    omega

theorem Packed.append {mid : Nat} (h₁ : Packed lo mid bs₁) (h₂ : Packed mid hi bs₂) :
    Packed lo hi (bs₁ ++ bs₂) := by
  induction bs₁ generalizing lo with
  | nil =>
    cases bs₂ with
    | nil => exact Nat.le_trans h₁ h₂
    | cons b rest => exact ⟨Nat.le_trans h₁ h₂.1, h₂.2⟩
  | cons b rest ih => exact ⟨h₁.1, h₁.2.1, ih h₁.2.2⟩

theorem Packed.of_mem (h : Packed lo hi bs) {b : Block} (hb : b ∈ bs) :
    lo ≤ b.start ∧ b.start + b.size ≤ hi ∧ b.Held := by
  induction bs generalizing lo with
  | nil => cases hb
  | cons c rest ih =>
    obtain ⟨h₁, h₂, h₃⟩ := h
    rcases List.mem_cons.1 hb with rfl | hb
    · exact ⟨h₁, h₃.le, h₂⟩
    · obtain ⟨g₁, g₂⟩ := ih h₃ hb
      exact ⟨by omega, g₂⟩

theorem Packed.length_le (h : Packed lo hi bs) : lo + bs.length ≤ hi := by
  induction bs generalizing lo with
  | nil => exact h
  | cons b rest ih =>
    have := ih h.2.2
    have := h.1
    have := h.2.1.size_pos
    rw [List.length_cons]
    omega

/-- Blocks in a row have different addresses. -/
theorem Packed.nodup (h : Packed lo hi bs) : (bs.map (·.start)).Nodup := by
  induction bs generalizing lo with
  | nil => exact List.nodup_nil
  | cons b rest ih =>
    rw [List.map_cons, List.nodup_cons]
    refine ⟨fun hmem => ?_, ih h.2.2⟩
    obtain ⟨c, hc, he⟩ := List.mem_map.1 hmem
    have := (h.2.2.of_mem hc).1
    have := h.2.1.size_pos
    omega

/-! ### Equal contents -/

/-- The two memories hold the same bytes from `lo` to `hi`. -/
def SameOn (lo hi : Nat) (m m' : Memory) : Prop :=
  ∀ i, lo ≤ i → i < hi → m'.bytes[i]? = m.bytes[i]?

theorem SameOn.refl (m : Memory) : SameOn lo hi m m :=
  fun _ _ _ => rfl

theorem SameOn.of_bytes (h : m'.bytes = m.bytes) : SameOn lo hi m m' :=
  fun _ _ _ => by rw [h]

theorem SameOn.mono (h : SameOn lo hi m m') (hl : lo ≤ lo') (hh : hi' ≤ hi) :
    SameOn lo' hi' m m' :=
  fun i h₁ h₂ => h i (Nat.le_trans hl h₁) (Nat.lt_of_lt_of_le h₂ hh)

theorem read_eq_ok {pointer length : Nat} {data : List UInt8}
    (h : m.read pointer length = .ok data) (hl : length ≠ 0) :
    pointer + length ≤ m.size ∧ data = (m.bytes.drop pointer).take length := by
  simp only [read, hl, ↓reduceIte] at h
  split at h
  · rename_i hs
    exact ⟨hs, (Except.ok.inj h).symm⟩
  · cases h

theorem read_of_le {pointer length : Nat} (h : pointer + length ≤ m.size) :
    m.read pointer length = .ok ((m.bytes.drop pointer).take length) := by
  by_cases hl : length = 0
  · simp [read, hl]
  · simp [read, hl, h]

/-- What was read once is read again from a memory with the same bytes there. -/
theorem SameOn.read {pointer length : Nat} {data : List UInt8}
    (h : SameOn pointer (pointer + length) m m') (hr : m.read pointer length = .ok data) :
    m'.read pointer length = .ok data := by
  by_cases hl : length = 0
  · simp only [Memory.read, hl, ↓reduceIte] at hr ⊢
    exact hr
  · obtain ⟨hs, rfl⟩ := read_eq_ok hr hl
    have last : m'.bytes[pointer + length - 1]? ≠ none := by
      rw [h _ (by omega) (by omega), ne_eq, List.getElem?_eq_none_iff]
      unfold size at hs
      omega
    have hs' : pointer + length ≤ m'.size := by
      rw [ne_eq, List.getElem?_eq_none_iff] at last
      unfold size
      omega
    rw [read_of_le hs']
    congr 1
    apply List.ext_getElem?
    intro i
    by_cases hi : i < length
    · rw [List.getElem?_take_of_lt hi, List.getElem?_take_of_lt hi, List.getElem?_drop,
        List.getElem?_drop, h _ (by omega) (by omega)]
    · rw [List.getElem?_take_eq_none (Nat.le_of_not_lt hi),
        List.getElem?_take_eq_none (Nat.le_of_not_lt hi)]

theorem SameOn.readNat {pointer width n : Nat} (h : SameOn pointer (pointer + width) m m')
    (hr : m.readNat pointer width = .ok n) : m'.readNat pointer width = .ok n := by
  unfold Memory.readNat at hr ⊢
  cases hd : m.read pointer width with
  | error e => rw [hd] at hr; cases hr
  | ok data => rw [h.read hd, ← hd, hr]

theorem readNat_lt {pointer width n : Nat} (h : m.readNat pointer width = .ok n) :
    n < 256 ^ width := by
  obtain ⟨data, hd, rfl⟩ := Except.map_eq_ok.1 h
  by_cases hw : width = 0
  · subst hw
    cases hd
    exact Nat.one_pos
  · obtain ⟨hs, rfl⟩ := read_eq_ok hd hw
    have hlen : ((m.bytes.drop pointer).take width).length = width := by
      unfold size at hs
      rw [List.length_take, List.length_drop]
      omega
    have := LittleEndian.value_lt ((m.bytes.drop pointer).take width)
    rwa [hlen] at this

/-! ### Growth -/

/-- From `m` to `m'`, the given blocks were handed out, oldest first, and no byte that `m` has
outside the range from `lo` to `hi` was changed. -/
structure Grows (lo hi : Nat) (bs : List Block) (m m' : Memory) : Prop where
  /-- The blocks are the newest of the ledger. -/
  ledger : m'.ledger = bs.reverse ++ m.ledger
  /-- The blocks follow one another behind the old end of the memory. -/
  packed : Packed m.size m'.size bs
  /-- Bytes outside the range are kept. -/
  kept : ∀ i < m.size, (i < lo ∨ hi ≤ i) → m'.bytes[i]? = m.bytes[i]?

theorem Grows.size_le (h : Grows lo hi bs m m') : m.size ≤ m'.size :=
  h.packed.le

theorem Grows.refl (m : Memory) : Grows lo hi [] m m :=
  ⟨rfl, Nat.le_refl _, fun _ _ _ => rfl⟩

/-- The range may be given larger, and as it likes beyond the end of the memory. -/
theorem Grows.widen (h : Grows lo hi bs m m')
    (hr : ∀ i < m.size, lo ≤ i → i < hi → lo' ≤ i ∧ i < hi') : Grows lo' hi' bs m m' :=
  ⟨h.ledger, h.packed, fun i hm ho => h.kept i hm <| by
    have := hr i hm
    omega⟩

theorem Grows.trans (h₁ : Grows lo hi bs₁ m m₁) (h₂ : Grows lo hi bs₂ m₁ m₂) :
    Grows lo hi (bs₁ ++ bs₂) m m₂ where
  ledger := by rw [h₂.ledger, h₁.ledger, List.reverse_append, List.append_assoc]
  packed := h₁.packed.append h₂.packed
  kept i hi ho := by
    rw [h₂.kept i (Nat.lt_of_lt_of_le hi h₁.size_le) ho, h₁.kept i hi ho]

/-! ### The two steps -/

theorem alloc_zero (m : Memory) (ha : 0 < align) :
    m.alloc 0 align = (align % UInt32.size, m) := by
  simp only [alloc, ↓reduceIte, Nat.max_eq_left ha]

theorem le_alignUp (value : Nat) {align : Nat} (ha : 0 < align) : value ≤ alignUp value align := by
  have := @Nat.and_le_right (value + align - 1) (align - 1)
  simp only [alignUp]
  omega

/-- The block is handed out behind the end of the memory. -/
theorem grows_alloc (m : Memory) (hs : size ≠ 0) (ha : 0 < align) :
    m.size ≤ (m.alloc size align).1 ∧
      (m.alloc size align).2.size = (m.alloc size align).1 + size ∧
      Grows lo hi [⟨(m.alloc size align).1, size, align, true⟩] m (m.alloc size align).2 := by
  have hm : max align 1 = align := by omega
  have hle := le_alignUp (max m.size 1) ha
  simp only [alloc, hs, ↓reduceIte, hm]
  have hsize : m.bytes.length = m.size := rfl
  have hnew : (m.bytes ++ List.replicate (alignUp (max m.size 1) align + size - m.size) 0).length =
      alignUp (max m.size 1) align + size := by
    rw [List.length_append, List.length_replicate]
    omega
  refine ⟨by omega, hnew, ⟨rfl, ⟨?_, ⟨Nat.pos_of_ne_zero hs, ha, rfl⟩, ?_⟩, ?_⟩⟩
  · change m.size ≤ alignUp (max m.size 1) align
    omega
  · exact Nat.le_of_eq hnew.symm
  · intro i h _
    exact List.getElem?_append_left h

theorem write_eq_ok {pointer : Nat} {data : List UInt8}
    (h : data = [] ∨ pointer + data.length ≤ m.size) :
    ∃ m', m.write pointer data = .ok m' ∧ m'.size = m.size ∧
      Grows pointer (pointer + data.length) [] m m' ∧
      m'.read pointer data.length = .ok data := by
  by_cases hd : data = []
  · subst hd
    exact ⟨m, rfl, rfl, Grows.refl m, rfl⟩
  · have hs : pointer + data.length ≤ m.size := h.resolve_left hd
    have he : data.isEmpty = false := by simpa using hd
    have hsz : m.size = m.bytes.length := rfl
    have hlen : (m.bytes.take pointer ++ data ++ m.bytes.drop (pointer + data.length)).length =
        m.size := by
      simp only [List.length_append, List.length_take, List.length_drop]
      omega
    have hw : m.write pointer data = .ok { m with
        bytes := m.bytes.take pointer ++ data ++ m.bytes.drop (pointer + data.length) } := by
      simp only [write, he, hs, ↓reduceIte, Bool.false_eq_true]
    refine ⟨_, hw, hlen, ⟨rfl, Nat.le_of_eq hlen.symm, fun i hi ho => ?_⟩, ?_⟩
    · rcases ho with ho | ho
      · rw [List.append_assoc, List.getElem?_append_left (by rw [List.length_take]; omega),
          List.getElem?_take_of_lt ho]
      · rw [List.getElem?_append_right (by simp only [List.length_append, List.length_take]; omega),
          List.getElem?_drop]
        congr 1
        simp only [List.length_append, List.length_take]
        omega
    · have hp : (m.bytes.take pointer).length = pointer := by
        rw [List.length_take]
        omega
      have hle : pointer + data.length ≤
          (m.bytes.take pointer ++ data ++ m.bytes.drop (pointer + data.length)).length :=
        hlen ▸ hs
      rw [read_of_le (by exact hle)]
      rw [List.append_assoc, List.drop_left' hp, List.take_left' rfl]

theorem write_of_not {pointer : Nat} {data : List UInt8} (hd : data ≠ [])
    (hs : ¬pointer + data.length ≤ m.size) : ∃ e, m.write pointer data = .error e := by
  have he : data.isEmpty = false := by simpa using hd
  exact ⟨_, by simp only [write, he, hs, ↓reduceIte, Bool.false_eq_true]; rfl⟩

/-- Writing hands out nothing. -/
theorem write_ledger {pointer : Nat} {data : List UInt8} (h : m.write pointer data = .ok m') :
    m'.ledger = m.ledger ∧ m'.size = m.size := by
  by_cases hd : data = [] ∨ pointer + data.length ≤ m.size
  · obtain ⟨m₁, hw, hsize, hg, -⟩ := write_eq_ok hd
    cases hw.symm.trans h
    exact ⟨hg.ledger, hsize⟩
  · obtain ⟨e, hw⟩ := write_of_not (fun h => hd (.inl h)) fun h => hd (.inr h)
    cases hw.symm.trans h

/-! ### New areas -/

/-- The addresses from `lo` to `hi` are in the memory, if there are any. -/
def Covers (m : Memory) (lo hi : Nat) : Prop :=
  lo < hi → hi ≤ m.size

theorem Covers.mono {lo' hi' : Nat} (h : m.Covers lo hi) (hl : lo ≤ lo') (hh : hi' ≤ hi) :
    m.Covers lo' hi' := by
  intro hlt
  have := h (by omega)
  omega

theorem Covers.grows {lo' hi' : Nat} (h : m.Covers lo hi) (hg : Grows lo' hi' bs m m') :
    m'.Covers lo hi :=
  fun hlt => Nat.le_trans (h hlt) hg.size_le

/-- Old bytes that are not in the range are the same. -/
theorem Grows.sameOn {a b : Nat} (h : Grows lo hi bs m m') (hc : m.Covers a b)
    (hd : b ≤ lo ∨ hi ≤ a ∨ hi ≤ lo) : SameOn a b m m' :=
  fun i h₁ h₂ => h.kept i (by have := hc (by omega); omega) (by omega)

/-- The block of a new area covers it. -/
theorem covers_alloc (m : Memory) (size : Nat) (ha : 0 < align) :
    (m.alloc size align).2.Covers (m.alloc size align).1 ((m.alloc size align).1 + size) := by
  intro hlt
  have hs : size ≠ 0 := by omega
  exact Nat.le_of_eq (@grows_alloc 0 0 size align m hs ha).2.1.symm

/-- What is done in a new area behind the end of the memory keeps all old bytes. -/
theorem Grows.of_alloc (ha : 0 < align)
    (h : Grows (m.alloc size align).1 ((m.alloc size align).1 + size) bs (m.alloc size align).2
      m') :
    Grows lo hi (Block.ofArea (m.alloc size align).1 size align ++ bs) m m' := by
  by_cases hs : size = 0
  · subst hs
    rw [alloc_zero m ha] at h
    exact h.widen fun i _ h₁ h₂ => by omega
  · obtain ⟨hle, -, hg⟩ := @grows_alloc lo hi size align m hs ha
    rw [Block.ofArea, if_neg hs]
    refine ⟨?_, hg.packed.append h.packed, fun i hi ho => ?_⟩
    · rw [h.ledger, hg.ledger, List.reverse_append, List.append_assoc]
    · rw [h.kept i (by have := hg.size_le; omega) (by omega), hg.kept i hi ho]

theorem grows_area (m : Memory) (size : Nat) (ha : 0 < align) :
    Grows lo hi (Block.ofArea (m.alloc size align).1 size align) m (m.alloc size align).2 := by
  have h : Grows lo hi (Block.ofArea (m.alloc size align).1 size align ++ []) m
      (m.alloc size align).2 := (Grows.refl _).of_alloc ha
  rwa [List.append_nil] at h

/-- The address of an area fits a word, as long as the memory does. -/
theorem alloc_start_lt (m : Memory) (ha : 0 < align)
    (h : (m.alloc size align).2.size < UInt32.size) : (m.alloc size align).1 < UInt32.size := by
  by_cases hs : size = 0
  · rw [hs, alloc_zero m ha]
    exact Nat.mod_lt _ (Nat.le_of_ble_eq_true rfl)
  · have := covers_alloc m size ha (by omega)
    omega

end Memory

/-! ### Steps -/

namespace MemoryM

open Memory

variable {α β : Type} {lo hi lo' hi' : Nat} {m : Memory}

/-- Run on `m`, the step only hands out blocks and writes into the range from `lo` to `hi`, whether
it succeeds or not. -/
def Confined (lo hi : Nat) (m : Memory) (x : MemoryM α) : Prop :=
  ∃ bs, Grows lo hi bs m (x.runOn m).2

theorem Confined.of_fst {x : MemoryM α} (h : (x.runOn m).2 = m) : Confined lo hi m x :=
  ⟨[], by rw [h]; exact Grows.refl m⟩

theorem confined_pure (a : α) : Confined lo hi m (pure a) :=
  .of_fst rfl

theorem confined_throw (e : AbiError) : Confined lo hi m (throw e : MemoryM α) :=
  .of_fst rfl

theorem confined_liftM (x : Except AbiError α) : Confined lo hi m (liftM x : MemoryM α) :=
  .of_fst rfl

theorem Confined.widen {x : MemoryM α} (h : Confined lo hi m x)
    (hr : ∀ i < m.size, lo ≤ i → i < hi → lo' ≤ i ∧ i < hi') : Confined lo' hi' m x :=
  let ⟨bs, hg⟩ := h
  ⟨bs, hg.widen hr⟩

theorem Confined.bind {x : MemoryM α} {f : α → MemoryM β} (hx : Confined lo hi m x)
    (hf : ∀ a m', x.runOn m = (.ok a, m') → m.size ≤ m'.size → Confined lo hi m' (f a)) :
    Confined lo hi m (x >>= f) := by
  obtain ⟨bs, hg⟩ := hx
  unfold Confined
  rw [runOn_bind]
  cases hr : x.runOn m with
  | mk r m₁ =>
    rw [hr] at hg
    cases r with
    | error e => exact ⟨bs, hg⟩
    | ok a =>
      obtain ⟨bs', hg'⟩ := hf a m₁ hr hg.size_le
      exact ⟨bs ++ bs', hg.trans hg'⟩

/-- After a step that cannot fail and changes nothing. -/
theorem Confined.bind_liftM {x : Except AbiError α} {f : α → MemoryM β}
    (hf : ∀ a, x = .ok a → Confined lo hi m (f a)) : Confined lo hi m (liftM x >>= f) :=
  (confined_liftM x).bind fun a m' h _ => by
    rw [runOn_liftM] at h
    obtain ⟨h₁, rfl⟩ := Prod.mk.inj h
    exact hf a h₁

theorem confined_forM {xs : List α} {f : α → MemoryM PUnit}
    (hf : ∀ x ∈ xs, ∀ m, Confined lo hi m (f x)) (m : Memory) :
    Confined lo hi m (xs.forM f) := by
  induction xs generalizing m with
  | nil => exact confined_pure _
  | cons x xs ih =>
    change Confined lo hi m (f x >>= fun _ => xs.forM f)
    exact (hf x List.mem_cons_self m).bind fun _ m' _ _ =>
      ih (fun y hy => hf y (List.mem_cons_of_mem _ hy)) m'

theorem confined_mapM {xs : List α} {f : α → MemoryM β}
    (hf : ∀ x ∈ xs, ∀ m, Confined lo hi m (f x)) (m : Memory) :
    Confined lo hi m (xs.mapM f) := by
  induction xs generalizing m with
  | nil => exact confined_pure _
  | cons x xs ih =>
    rw [List.mapM_cons]
    refine (hf x List.mem_cons_self m).bind fun _ m' _ _ => ?_
    exact (ih (fun y hy => hf y (List.mem_cons_of_mem _ hy)) m').bind fun _ _ _ _ =>
      confined_pure _

theorem confined_write (pointer : Nat) (data : List UInt8) :
    Confined pointer (pointer + data.length) m (write pointer data) := by
  unfold Confined
  rw [runOn_write]
  by_cases h : data = [] ∨ pointer + data.length ≤ m.size
  · obtain ⟨m', hw, -, hg, -⟩ := write_eq_ok h
    rw [hw]
    exact ⟨[], hg⟩
  · obtain ⟨e, hw⟩ := write_of_not (m := m) (fun hd => h (.inl hd)) fun hs => h (.inr hs)
    rw [hw]
    exact ⟨[], Grows.refl m⟩

theorem confined_writeNat (pointer width n : Nat) :
    Confined pointer (pointer + width) m (writeNat pointer width n) := by
  have := confined_write (m := m) pointer (LittleEndian.bytes width n)
  rwa [LittleEndian.length_bytes] at this

/-- What is done with a new block may also write into it. -/
theorem Confined.bind_alloc {size align : Nat} {f : Nat → MemoryM β} (ha : 0 < align)
    (hf : ∀ start m', Confined start (start + size) m' (f start)) :
    Confined lo hi m (alloc size align >>= f) := by
  obtain ⟨bs, hg⟩ := hf (m.alloc size align).1 (m.alloc size align).2
  unfold Confined
  rw [runOn_bind_of_ok (runOn_alloc size align m)]
  exact ⟨_, hg.of_alloc ha⟩

/-! ### Size -/

/-- The step never makes a memory smaller. -/
def NeverShrinks (x : MemoryM α) : Prop :=
  ∀ m, m.size ≤ (x.runOn m).2.size

theorem Confined.size_le {x : MemoryM α} (h : Confined lo hi m x) : m.size ≤ (x.runOn m).2.size :=
  let ⟨_, hg⟩ := h
  hg.size_le

theorem neverShrinks_of_fst {x : MemoryM α} (h : ∀ m, (x.runOn m).2 = m) : NeverShrinks x :=
  fun m => Nat.le_of_eq (congrArg Memory.size (h m)).symm

theorem neverShrinks_pure (a : α) : NeverShrinks (pure a) :=
  neverShrinks_of_fst fun _ => rfl

theorem neverShrinks_throw (e : AbiError) : NeverShrinks (throw e : MemoryM α) :=
  neverShrinks_of_fst fun _ => rfl

theorem neverShrinks_liftM (x : Except AbiError α) : NeverShrinks (liftM x : MemoryM α) :=
  neverShrinks_of_fst fun _ => rfl

theorem neverShrinks_reading (look : Memory → Except AbiError α) : NeverShrinks (reading look) :=
  neverShrinks_of_fst fun m => congrArg Prod.snd (runOn_reading look m)

theorem neverShrinks_of_confined {x : MemoryM α} (h : ∀ m, Confined lo hi m x) : NeverShrinks x :=
  fun m => (h m).size_le

theorem neverShrinks_writeNat (pointer width n : Nat) :
    NeverShrinks (writeNat pointer width n) :=
  neverShrinks_of_confined fun _ => confined_writeNat pointer width n

theorem neverShrinks_alloc (size align : Nat) : NeverShrinks (alloc size align) := by
  intro m
  rw [runOn_alloc, Memory.alloc]
  split
  · exact Nat.le_refl _
  · simp [Memory.size]

theorem neverShrinks_free (pointer size align : Nat) : NeverShrinks (free pointer size align) := by
  intro m
  rw [runOn_free, Memory.free]
  by_cases hs : size = 0
  · simp only [if_pos hs, Nat.le_refl]
  · rw [if_neg hs]
    cases Memory.releaseAt pointer size (max align 1) m.ledger <;> exact Nat.le_refl _

theorem NeverShrinks.bind {x : MemoryM α} {f : α → MemoryM β} (hx : NeverShrinks x)
    (hf : ∀ a, NeverShrinks (f a)) : NeverShrinks (x >>= f) := by
  intro m
  have hm := hx m
  refine runOn_bind_cases (Q := fun o => m.size ≤ o.2.size) ?_ ?_
  · exact fun e m' h => by rwa [h] at hm
  · intro a m' h
    rw [h] at hm
    exact Nat.le_trans hm (hf a m')

/-- What follows a step leaves the memory at least as large as the step did. -/
theorem size_le_bind {x : MemoryM α} {f : α → MemoryM β} (hf : ∀ a, NeverShrinks (f a))
    (m : Memory) : (x.runOn m).2.size ≤ ((x >>= f).runOn m).2.size := by
  refine runOn_bind_cases (Q := fun o => (x.runOn m).2.size ≤ o.2.size) ?_ ?_
  · exact fun e m' h => Nat.le_of_eq (congrArg (fun o => o.2.size) h)
  · exact fun a m' h => Nat.le_trans (Nat.le_of_eq (congrArg (fun o => o.2.size) h)) (hf a m')

/-- Freeing does not make a memory smaller. -/
theorem size_guarded (x : MemoryM α) (m : Memory) :
    ((guarded x).runOn m).2.size = (x.runOn m).2.size := by
  rw [runOn_guarded]
  obtain ⟨r, m'⟩ := runOn x m
  cases r <;> rfl

theorem NeverShrinks.guarded {x : MemoryM α} (hx : NeverShrinks x) : NeverShrinks (guarded x) :=
  fun m => Nat.le_trans (hx m) (Nat.le_of_eq (size_guarded x m).symm)

theorem neverShrinks_forM {xs : List α} {f : α → MemoryM PUnit} (hf : ∀ x, NeverShrinks (f x)) :
    NeverShrinks (xs.forM f) := by
  induction xs with
  | nil => exact neverShrinks_pure _
  | cons x xs ih => exact (hf x).bind fun _ => ih

end MemoryM

end ComponentAbi
