import ComponentAbi.Marshal.Free
import ComponentAbi.Proofs.Marshal.Lifting
import ComponentAbi.Proofs.Memory.Release

/-!
# Freeing what was lowered

A native value that is stored at an address, or passed as some words, is taken apart again down to
the blocks that it owns. Freeing it frees all of them and nothing else (`Stored.free`,
`Carried.free`), in an order in which nothing is looked at after it was freed. Nothing of the value
itself is changed, so the two hold on every memory with the same bytes.
-/

namespace ComponentAbi

open Memory (SameOn releaseAll_releaseAll releaseAll_congr releaseAll_nil)
open MemoryM

/-! ### Types that own no memory -/

variable {abi : Abi} {m m' : Memory}

mutual

/-- Values of types without strings and lists own no blocks. -/
theorem Stored.eq_nil {s : Shape} {n : Native} {p : Nat} {bs : List Block} :
    Stored abi m s n p bs → s.ownsMemory = false → bs = []
  | .leaf _ _, _ => rfl
  | .text _ _ _, h => by cases h
  | .list _ _ _, h => by cases h
  | .product offset row, h => row.eq_nil fun place hm => by
    obtain ⟨field, hf, he⟩ := Shape.mem_row hm
    exact he ▸ Shape.fieldsOwnMemory_eq_false.1 h field hf
  | .bare _ _ _, _ => rfl
  | .payload case _ _ stored, h =>
    stored.eq_nil (Shape.casesOwnMemory_eq_false.1 h _ _ (List.mem_of_getElem? case))

theorem StoredRow.eq_nil {places : List (Shape × Nat)} {ns : List Native} {bs : List Block} :
    StoredRow abi m places ns bs → (∀ place ∈ places, place.1.ownsMemory = false) → bs = []
  | .nil, _ => rfl
  | .cons head tail, h => by
    obtain ⟨hs, hrest⟩ := List.forall_mem_cons.1 h
    rw [head.eq_nil hs, tail.eq_nil hrest]
    rfl

end

mutual

theorem Carried.eq_nil {s : Shape} {n : Native} {ws : List Word} {bs : List Block} :
    Carried abi m s n ws bs → s.ownsMemory = false → bs = []
  | .leaf _, _ => rfl
  | .text _, h => by cases h
  | .list _, h => by cases h
  | .product row, h => row.eq_nil (Shape.fieldsOwnMemory_eq_false.1 h)
  | .bare _ _ _ _, _ => rfl
  | .payload case _ _ carried _, h =>
    carried.eq_nil (Shape.casesOwnMemory_eq_false.1 h _ _ (List.mem_of_getElem? case))

theorem CarriedRow.eq_nil {fields : List (String × Shape)} {ns : List Native} {ws : List Word}
    {bs : List Block} :
    CarriedRow abi m fields ns ws bs → (∀ field ∈ fields, field.2.ownsMemory = false) → bs = []
  | .nil, _ => rfl
  | .cons head tail, h => by
    obtain ⟨hs, hrest⟩ := List.forall_mem_cons.1 h
    rw [head.eq_nil hs, tail.eq_nil hrest]
    rfl

end

/-! ### One block -/

theorem runOn_free_of_owns {start size align : Nat}
    (h : m.Owns (Block.ofArea start size align)) :
    runOn (free start size align) m =
      (.ok (), m.releaseAll (Block.starts (Block.ofArea start size align))) := by
  rw [runOn_free]
  by_cases hs : size = 0
  · simp [Memory.free, Block.ofArea, hs]
  · rw [Block.ofArea_of_pos (Nat.pos_of_ne_zero hs)] at h ⊢
    rw [h.free (b := ⟨start, size, align, true⟩) (List.mem_singleton_self _)]
    rfl

/-- Freeing some blocks and then others frees all of them. -/
theorem Memory.Owns.releaseAll_after {bs bs' : List Block} (h : m.Owns (bs ++ bs')) :
    (m.releaseAll (Block.starts bs)).releaseAll (Block.starts bs') =
      m.releaseAll (Block.starts (bs ++ bs')) := by
  rw [releaseAll_releaseAll h.disjoint, Block.starts, Block.starts, Block.starts, List.map_append]

theorem Memory.Owns.comm {bs bs' : List Block} (h : m.Owns (bs ++ bs')) : m.Owns (bs' ++ bs) :=
  h.right.append h.left fun p hp hp' => h.disjoint p hp' hp

theorem Memory.releaseAll_starts_comm (m : Memory) (bs bs' : List Block) :
    m.releaseAll (Block.starts (bs ++ bs')) = m.releaseAll (Block.starts (bs' ++ bs)) :=
  releaseAll_congr fun p => by simp only [Block.starts, List.map_append, List.mem_append, or_comm]

/-! ### From memory -/

theorem forRange_eq_forM (step : Nat → MemoryM Unit) (first count : Nat) :
    forRange step first count = (List.range' first count).forM step := by
  induction count generalizing first with
  | zero => rfl
  | succ count ih =>
    rw [forRange, ih, List.range'_succ]
    rfl

theorem forRange_slots (free : Shape → Nat → MemoryM Unit) (s : Shape)
    (start size first count : Nat) :
    forRange (fun i => free s (start + i * size)) first count =
      (Shape.slots s start size first count).forM fun place => free place.1 place.2 := by
  rw [forRange_eq_forM, Shape.slots_eq_map, List.forM_eq_forM, List.forM_eq_forM, List.forM_map]

theorem forM_row (free : Shape → Nat → MemoryM Unit) (fields : List (String × Shape))
    (offsets : List Nat) (p : Nat) :
    ((fields.zip offsets).forM fun ((_, field), offset) => free field (p + offset)) =
      (Shape.row fields offsets p).forM fun place => free place.1 place.2 := by
  rw [Shape.row, List.forM_eq_forM, List.forM_eq_forM, List.forM_map]

theorem runOn_loadPair {p start length : Nat} (hm : m'.bytes = m.bytes)
    (hp : m.readNat p 4 = .ok start) (hn : m.readNat (p + 4) 4 = .ok length) :
    runOn (reading (loadPair · p)) m' = (.ok (start, length), m') := by
  rw [runOn_reading, loadPair_eq_ok ((SameOn.of_bytes hm).readNat hp)
    ((SameOn.of_bytes hm).readNat hn)]

theorem runOn_readNat {p width n : Nat} (hm : m'.bytes = m.bytes)
    (hr : m.readNat p width = .ok n) :
    runOn (reading (·.readNat p width)) m' = (.ok n, m') := by
  rw [runOn_reading, (SameOn.of_bytes hm).readNat hr]

mutual

/-- Freeing a stored value frees the blocks that it owns. -/
theorem Stored.free {m' : Memory} {s : Shape} {n : Native} {p d : Nat} {bs : List Block} :
    Stored abi m s n p bs → m'.bytes = m.bytes → m'.Owns bs → abi.DepthFor s bs d →
      runOn (abi.freeStoredWithin d s p) m' = (.ok (), m'.releaseAll (Block.starts bs))
  | .leaf _ _, _, _, hd => by
    obtain ⟨d, rfl⟩ := hd.pos
    rw [Block.starts, List.map_nil, releaseAll_nil]
    rfl
  | .text pointer count text_at, hm, ho, hd => by
    obtain ⟨d, rfl⟩ := hd.pos
    rw [text_at.owned] at ho ⊢
    exact (runOn_bind_of_ok (runOn_loadPair hm pointer count) _).trans (runOn_free_of_owns ho)
  | .list pointer count list_at, hm, ho, hd => by
    obtain ⟨d, rfl⟩ := hd.pos
    exact (runOn_bind_of_ok (runOn_loadPair hm pointer count) _).trans (list_at.free hm ho hd)
  | .product offset row, hm, ho, hd => by
    obtain ⟨d, rfl⟩ := hd.pos
    have hrow := row.free hm ho fun place hm => by
      obtain ⟨field, hf, he⟩ := Shape.mem_row hm
      exact he ▸ hd.field hf
    rw [Abi.freeStoredWithin, offset, runOn_bind_of_ok (runOn_liftM _ m'), ← hrow, ← forM_row]
  | .bare case laid hread, hm, _, hd => by
    obtain ⟨d, rfl⟩ := hd.pos
    rw [Abi.freeStoredWithin, laid, runOn_bind_of_ok (runOn_liftM _ m'),
      runOn_bind_of_ok (runOn_readNat hm hread),
      caseAt_eq_ok case, Block.starts, List.map_nil, releaseAll_nil]
    rfl
  | .payload case laid hread stored, hm, ho, hd => by
    obtain ⟨d, rfl⟩ := hd.pos
    rw [Abi.freeStoredWithin, laid, runOn_bind_of_ok (runOn_liftM _ m'),
      runOn_bind_of_ok (runOn_readNat hm hread),
      caseAt_eq_ok case]
    exact stored.free hm ho (hd.case (List.mem_of_getElem? case))

theorem StoredRow.free {m' : Memory} {places : List (Shape × Nat)} {ns : List Native} {d : Nat}
    {bs : List Block} : StoredRow abi m places ns bs → m'.bytes = m.bytes → m'.Owns bs →
      (∀ place ∈ places, abi.DepthFor place.1 bs d) →
      runOn (places.forM fun place => abi.freeStoredWithin d place.1 place.2) m' =
        (.ok (), m'.releaseAll (Block.starts bs))
  | .nil, _, _, _ => by
    rw [Block.starts, List.map_nil, releaseAll_nil]
    rfl
  | .cons head tail, hm, ho, hd => by
    obtain ⟨hd, hdrest⟩ := List.forall_mem_cons.1 hd
    have hhead := head.free hm ho.left
      (hd.mono (Nat.le_refl _) (by rw [List.length_append]; omega))
    have htail := tail.free ((Memory.bytes_releaseAll m' _).trans hm) ho.after fun place hm =>
      (hdrest place hm).mono (Nat.le_refl _) (by rw [List.length_append]; omega)
    rw [← ho.releaseAll_after]
    exact (runOn_bind_of_ok hhead _).trans htail

theorem ListAt.free {m' : Memory} {element : TypeId} {items : List Native} {start length d : Nat}
    {bs : List Block} : ListAt abi m element items start length bs → m'.bytes = m.bytes →
      m'.Owns bs → abi.DepthFor (.list element) bs (d + 1) →
      runOn (abi.freeItems (abi.freeStoredWithin d) element start length) m' =
        (.ok (), m'.releaseAll (Block.starts bs))
  | @ListAt.mk _ _ _ layout items _ _ bs laid start_lt length_eq covers room row dangling,
      hm, ho, hd => by
    have harea := (ListAt.mk laid start_lt length_eq covers room row dangling).area_eq laid
    rw [Memory.releaseAll_starts_comm, ← ho.comm.releaseAll_after]
    have hblock := runOn_free_of_owns ho.comm.after
    rw [← harea] at hblock ⊢
    rw [Abi.freeItems, laid, runOn_bind_of_ok (runOn_liftM _ m')]
    by_cases hown : (abi.shape element).ownsMemory = true
    · have hsize := Shape.size_pos_of_ownsMemory _ hown laid
      have hlen : length = items.length := Nat.eq_of_mul_eq_mul_left hsize harea
      have hitems : runOn (forRange (fun i => abi.freeStoredWithin d (abi.shape element)
          (start + i * layout.size)) 0 length) m' = (.ok (), m'.releaseAll (Block.starts bs)) := by
        rw [forRange_slots, hlen]
        refine row.free hm ho.right fun place hp => ?_
        have hpos : 0 < items.length := by
          rcases Nat.eq_zero_or_pos items.length with hz | hpos
          · rw [hz] at hp
            exact absurd hp List.not_mem_nil
          · exact hpos
        rw [Shape.mem_slots hp]
        exact hd.items (Nat.mul_pos hsize hpos)
      rw [if_pos hown]
      exact (runOn_bind_of_ok hitems _).trans hblock
    · have hnil := row.eq_nil fun place hm => by
        rw [Shape.mem_slots hm]
        exact Bool.eq_false_iff.2 hown
      rw [hnil, Block.starts, List.map_nil, releaseAll_nil] at hblock ⊢
      rw [if_neg hown]
      exact hblock

end

/-! ### From words -/

theorem Leaf.check_of_holds {l : Leaf} {a : Atom} {bits : Nat} (h : l.Holds a bits) :
    l.check = .ok () := by
  cases l with
  | flags name labels =>
    obtain ⟨u, hc, -⟩ := Except.bind_eq_ok.1 h.decode
    exact hc
  | _ => rfl

mutual

/-- Freeing a value in words frees the blocks that it owns. -/
theorem Carried.free {m' : Memory} {s : Shape} {n : Native} {ws : List Word} {d : Nat}
    {bs : List Block} (taken : Nat) (rest : List Word) : Carried abi m s n ws bs →
      m'.bytes = m.bytes → m'.Owns bs → abi.DepthFor s bs d →
      runOn (abi.freeFlatWithin d s ⟨taken, ws ++ rest⟩) m' =
        (.ok ⟨taken + ws.length, rest⟩, m'.releaseAll (Block.starts bs))
  | .leaf (l := lf) holds, _, _, hd => by
    obtain ⟨d, rfl⟩ := hd.pos
    rw [Abi.freeFlatWithin, Shape.flatten, Leaf.check_of_holds holds, Block.starts, List.map_nil,
      releaseAll_nil]
    rfl
  | .text text_at, hm, ho, hd => by
    obtain ⟨d, rfl⟩ := hd.pos
    rw [text_at.owned] at ho ⊢
    refine (runOn_bind_liftM (WordReader.next_ofNat text_at.start_lt) _ m').trans ?_
    refine (runOn_bind_liftM (WordReader.next_ofNat text_at.length_lt) _ m').trans ?_
    exact runOn_bind_of_ok (runOn_free_of_owns ho) _
  | .list list_at, hm, ho, hd => by
    obtain ⟨d, rfl⟩ := hd.pos
    obtain ⟨hstart, hlength⟩ := list_at.fit_words
    refine (runOn_bind_liftM (WordReader.next_ofNat hstart) _ m').trans ?_
    refine (runOn_bind_liftM (WordReader.next_ofNat hlength) _ m').trans ?_
    exact runOn_bind_of_ok (list_at.free hm ho hd) _
  | .product row, hm, ho, hd => by
    obtain ⟨d, rfl⟩ := hd.pos
    exact row.free taken rest hm ho fun field hf => hd.field hf
  | .bare case lt flat fill, _, _, hd => by
    obtain ⟨d, rfl⟩ := hd.pos
    refine (runOn_bind_liftM flat _ m').trans ?_
    refine (runOn_bind_liftM (WordReader.next_ofNat lt) _ m').trans ?_
    refine (runOn_bind_liftM (WordReader.take_words (Shape.length_fillSlots fill)) _ m').trans ?_
    refine (runOn_bind_liftM (caseAt_eq_ok case) _ m').trans ?_
    rw [Shape.length_fillSlots fill, List.length_cons, Nat.add_assoc, Nat.add_comm 1, Block.starts,
      List.map_nil, releaseAll_nil]
    rfl
  | @Carried.payload _ _ _ _ _ _ s' _ _ _ _ bs case lt flat carried fill, hm, ho, hd => by
    obtain ⟨d, rfl⟩ := hd.pos
    obtain ⟨kinds, hk, hdrain, hlen⟩ := carried.drain case flat fill
    refine (runOn_bind_liftM flat _ m').trans ?_
    refine (runOn_bind_liftM (WordReader.next_ofNat lt) _ m').trans ?_
    refine (runOn_bind_liftM (WordReader.take_words hlen) _ m').trans ?_
    refine (runOn_bind_liftM (caseAt_eq_ok case) _ m').trans ?_
    rw [hlen, List.length_cons, Nat.add_assoc, Nat.add_comm 1]
    by_cases hown : s'.ownsMemory = true
    · have hpayload := carried.free 0 [] hm ho
        (hd.case (List.mem_of_getElem? case))
      rw [List.append_nil] at hpayload
      simp only [hown, ↓reduceIte]
      refine (runOn_bind_liftM (Except.bind_eq_ok.2 ⟨_, hk, hdrain⟩) _ m').trans ?_
      exact runOn_bind_of_ok hpayload _
    · rw [carried.eq_nil (Bool.eq_false_iff.2 hown), Block.starts, List.map_nil, releaseAll_nil]
      simp only [hown]
      rfl

theorem CarriedRow.free {m' : Memory} {fields : List (String × Shape)} {ns : List Native}
    {ws : List Word} {d : Nat} {bs : List Block} (taken : Nat) (rest : List Word) :
    CarriedRow abi m fields ns ws bs → m'.bytes = m.bytes → m'.Owns bs →
      (∀ field ∈ fields, abi.DepthFor field.2 bs d) →
      runOn (Abi.freeFieldsWith (abi.freeFlatWithin d) fields ⟨taken, ws ++ rest⟩) m' =
        (.ok ⟨taken + ws.length, rest⟩, m'.releaseAll (Block.starts bs))
  | .nil, _, _, _ => by
    rw [Block.starts, List.map_nil, releaseAll_nil]
    rfl
  | @CarriedRow.cons _ _ _ _ _ _ _ ws₁ ws₂ _ _ head tail, hm, ho, hd => by
    obtain ⟨hd, hdrest⟩ := List.forall_mem_cons.1 hd
    have hhead := head.free taken (ws₂ ++ rest) hm ho.left
      (hd.mono (Nat.le_refl _) (by rw [List.length_append]; omega))
    have htail := tail.free (taken + ws₁.length) rest
      ((Memory.bytes_releaseAll m' _).trans hm) ho.after fun field hf =>
        (hdrest field hf).mono (Nat.le_refl _) (by rw [List.length_append]; omega)
    rw [← ho.releaseAll_after, List.append_assoc, List.length_append, ← Nat.add_assoc]
    exact (runOn_bind_of_ok hhead _).trans htail

end

end ComponentAbi
