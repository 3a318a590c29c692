import ComponentAbi.Proofs.Memory.Release

/-!
# Steps that settle what they hand out

What became of a memory since some point: the blocks that were handed out since, live or freed, in
front of an old ledger that was not touched, and old bytes that are as they were
(`Memory.Extends`). If none of the new blocks is live, the memory is settled (`Memory.Settled`), and
nothing was leaked: the live blocks are those of before, and every counter of what was handed out
went up by as much as its counter of what was freed.

* `Memory.Extends.settled_releaseSince` : freeing everything since the point settles the memory;
* `MemoryM.Confined.runOn_guarded` : what a guarded step leaves when it fails.
-/

namespace ComponentAbi

namespace Block

variable {bs : List Block} {ps : List Nat} {b : Block}

@[simp] theorem start_releaseIn (ps : List Nat) (b : Block) : (releaseIn ps b).start = b.start := by
  rw [releaseIn]
  split <;> rfl

@[simp] theorem starts_map_releaseIn (ps : List Nat) (bs : List Block) :
    starts (bs.map (releaseIn ps)) = starts bs := by
  simp [starts]

@[simp] theorem mem_starts_reverse {p : Nat} : p ∈ starts bs.reverse ↔ p ∈ starts bs := by
  simp [starts]

@[simp] theorem mem_starts_append {bs' : List Block} {p : Nat} :
    p ∈ starts (bs ++ bs') ↔ p ∈ starts bs ∨ p ∈ starts bs' := by
  simp only [starts, List.map_append, List.mem_append]

theorem dead_releaseIn (h : b.live = false ∨ b.start ∈ ps) : (releaseIn ps b).live = false := by
  rw [releaseIn]
  split
  · rfl
  · exact h.resolve_right ‹_›

end Block

namespace Memory

variable {m m₁ m' : Memory} {lo hi : Nat} {bs news : List Block} {ps : List Nat}

/-! ### What became of new blocks -/

/-- Since `m`, the blocks `news` were handed out behind its end, the newest first, and no byte of
`m` was changed. -/
structure Extends (m : Memory) (news : List Block) (m' : Memory) : Prop where
  /-- The new blocks are in front of the old ledger. -/
  ledger : m'.ledger = news ++ m.ledger
  /-- They are at different addresses. -/
  nodup : (Block.starts news).Nodup
  /-- They start inside the memory. -/
  inside : ∀ b ∈ news, b.start < m'.size
  /-- The memory did not shrink. -/
  size_le : m.size ≤ m'.size
  /-- Old bytes are kept. -/
  kept : ∀ i < m.size, m'.bytes[i]? = m.bytes[i]?

theorem Extends.refl (m : Memory) : Extends m [] m :=
  ⟨rfl, List.nodup_nil, fun _ h => absurd h List.not_mem_nil, Nat.le_refl _, fun _ _ => rfl⟩

/-- More blocks are handed out, and only bytes behind the old end are written to. -/
theorem Extends.grows (h : Extends m news m₁) (hg : Grows lo hi bs m₁ m')
    (hr : m.size ≤ lo ∨ hi ≤ lo) : Extends m (bs.reverse ++ news) m' where
  ledger := by rw [hg.ledger, h.ledger, List.append_assoc]
  nodup := by
    rw [Block.nodup_starts_append]
    refine ⟨Block.nodup_starts_reverse.2 hg.packed.nodup, h.nodup, fun p hp hp' => ?_⟩
    obtain ⟨b, hb, rfl⟩ := List.mem_map.1 hp
    obtain ⟨c, hc, he⟩ := List.mem_map.1 hp'
    have := (hg.packed.of_mem (List.mem_reverse.1 hb)).1
    have := h.inside c hc
    omega
  inside b hb := by
    rcases List.mem_append.1 hb with hb | hb
    · obtain ⟨-, hle, hheld⟩ := hg.packed.of_mem (List.mem_reverse.1 hb)
      have := hheld.size_pos
      omega
    · exact Nat.lt_of_lt_of_le (h.inside b hb) hg.size_le
  size_le := Nat.le_trans h.size_le hg.size_le
  kept i hi := by
    have := h.size_le
    rw [hg.kept i (by omega) (by omega), h.kept i hi]

theorem Grows.extends (hg : Grows 0 0 bs m m') : Extends m bs.reverse m' := by
  have h := (Extends.refl m).grows hg (.inr (Nat.le_refl 0))
  rwa [List.append_nil] at h

/-- Some of the new blocks are freed. -/
theorem Extends.releaseAll (h : Extends m news m') (hs : ∀ p ∈ ps, p ∈ Block.starts news) :
    Extends m (news.map (Block.releaseIn ps)) (m'.releaseAll ps) where
  ledger := by rw [Memory.releaseAll, h.ledger, Block.releaseAll_append h.nodup hs]
  nodup := by
    rw [Block.starts_map_releaseIn]
    exact h.nodup
  inside b hb := by
    obtain ⟨c, hc, rfl⟩ := List.mem_map.1 hb
    rw [Block.start_releaseIn]
    exact h.inside c hc
  size_le := h.size_le
  kept := h.kept

theorem releaseSince_of_append (h : m'.ledger = news ++ m.ledger) :
    (m'.releaseSince m.mark).2 = { m' with ledger := news.map Block.release ++ m.ledger } := by
  have hlen : m'.ledger.length - m.mark = news.length := by
    rw [h, mark, List.length_append, Nat.add_sub_cancel]
  rw [releaseSince, hlen, h, List.take_left, List.drop_left]

/-- Freeing what was handed out since is freeing the blocks one by one. -/
theorem Grows.releaseSince (h : Grows lo hi bs m m') :
    (m'.releaseSince m.mark).2 = m'.releaseAll (Block.starts bs) := by
  have hn := Block.nodup_starts_reverse.2 h.packed.nodup
  have hs : ∀ p ∈ Block.starts bs, p ∈ Block.starts bs.reverse := by simp
  have hall : bs.reverse.map (Block.releaseIn (Block.starts bs)) = bs.reverse.map Block.release :=
    List.map_congr_left fun b hb =>
      if_pos (List.mem_map_of_mem (List.mem_reverse.1 hb))
  rw [releaseSince_of_append h.ledger, Memory.releaseAll, h.ledger, Block.releaseAll_append hn hs,
    hall]

/-! ### Nothing leaked -/

/-- Every block that was handed out since `m` was freed, nothing else was, and no byte of `m` was
changed. -/
structure Settled (m m' : Memory) : Prop where
  /-- The new blocks are in front of the old ledger, and none of them is live. -/
  ledger : ∃ news, m'.ledger = news ++ m.ledger ∧ ∀ b ∈ news, b.live = false
  /-- The old bytes are the first ones. -/
  bytes : m.bytes <+: m'.bytes

theorem Extends.bytes (h : Extends m news m') : m.bytes <+: m'.bytes := by
  rw [List.prefix_iff_getElem?]
  intro i hi
  rw [h.kept i hi, List.getElem?_eq_getElem hi]

theorem Extends.settled (h : Extends m news m') (hd : ∀ b ∈ news, b.live = false) :
    Settled m m' :=
  ⟨⟨news, h.ledger, hd⟩, h.bytes⟩

theorem Extends.settled_releaseSince (h : Extends m news m') :
    Settled m (m'.releaseSince m.mark).2 := by
  rw [releaseSince_of_append h.ledger]
  refine ⟨⟨_, rfl, fun b hb => ?_⟩, h.bytes⟩
  obtain ⟨c, -, rfl⟩ := List.mem_map.1 hb
  rfl

theorem Settled.liveBlocks (h : Settled m m') : m'.liveBlocks = m.liveBlocks := by
  obtain ⟨news, hl, hd⟩ := h.ledger
  have hnone : news.filter (·.live) = [] := by simpa using hd
  rw [Memory.liveBlocks, hl, List.filter_append, hnone]
  rfl

theorem Settled.counters (h : Settled m m') : ∃ count bytes,
    m'.allocations = m.allocations + count ∧ m'.frees = m.frees + count ∧
      m'.bytesAllocated = m.bytesAllocated + bytes ∧ m'.bytesFreed = m.bytesFreed + bytes := by
  obtain ⟨news, hl, hd⟩ := h.ledger
  have hall : news.filter (!·.live) = news := List.filter_eq_self.2 fun b hb => by simp [hd b hb]
  refine ⟨news.length, (news.map (·.size)).sum, ?_, ?_, ?_, ?_⟩
  · rw [allocations, allocations, hl, List.length_append, Nat.add_comm]
  · rw [frees, frees, hl, List.countP_append, List.countP_eq_length_filter, hall, Nat.add_comm]
  · rw [bytesAllocated, bytesAllocated, hl, List.map_append, List.sum_append, Nat.add_comm]
  · rw [bytesFreed, bytesFreed, hl, List.filter_append, hall, List.map_append, List.sum_append,
      Nat.add_comm]

/-- What was handed out in a step of growth and is freed again is as if it had never been. -/
theorem Grows.liveBlocks_releaseAll (h : Grows lo hi bs m m') :
    (m'.releaseAll (Block.starts bs)).liveBlocks = m.liveBlocks := by
  rw [← h.releaseSince, releaseSince_of_append h.ledger, liveBlocks, liveBlocks]
  have hnone : (bs.reverse.map Block.release).filter (·.live) = [] := by
    rw [List.filter_eq_nil_iff]
    intro b hb
    obtain ⟨c, -, rfl⟩ := List.mem_map.1 hb
    exact Bool.false_ne_true
  rw [List.filter_append, hnone]
  rfl

end Memory

/-! ### Guarded steps -/

namespace MemoryM

open Memory

variable {α : Type} {lo hi : Nat} {m m' : Memory} {x : MemoryM α} {e : AbiError}

/-- A guarded step that fails frees all that it handed out. -/
theorem Confined.runOn_guarded (h : Confined lo hi m x)
    (hr : runOn (guarded x) m = (.error e, m')) :
    ∃ bs m₁, Grows lo hi bs m m₁ ∧ m' = m₁.releaseAll (Block.starts bs) := by
  obtain ⟨bs, hg⟩ := h
  rw [MemoryM.runOn_guarded] at hr
  cases hx : runOn x m with
  | mk r m₁ =>
    rw [hx] at hg hr
    cases r with
    | ok a => cases hr
    | error e =>
      cases hr
      exact ⟨bs, m₁, hg, hg.releaseSince⟩

end MemoryM

end ComponentAbi
