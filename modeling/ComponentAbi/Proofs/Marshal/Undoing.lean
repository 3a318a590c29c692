import ComponentAbi.Proofs.Marshal.Rows
import ComponentAbi.Proofs.Memory.Settled

/-!
# Freeing undoes lowering

Freeing what was just lowered, from its words or from where it was stored, frees exactly the blocks
that lowering handed out (`Abi.free_undoes_lower`). No block is freed twice and none with another
size or alignment than its own: the memory ends as if the blocks had been freed one by one
(`Memory.Owns.freeEach`).
-/

namespace ComponentAbi

open Memory MemoryM

namespace Memory

variable {lo hi : Nat} {m m₁ m₂ : Memory} {bs : List Block}

/-- Frees blocks one by one, each with its own size and alignment. -/
def freeEach (m : Memory) (bs : List Block) : Except AbiError Memory :=
  bs.foldlM (fun m b => m.free b.start b.size b.align) m

/-- Owned blocks can be freed one by one. -/
theorem Owns.freeEach (h : m.Owns bs) :
    m.freeEach bs = .ok (m.releaseAll (Block.starts bs)) := by
  induction bs generalizing m with
  | nil => rw [Block.starts, List.map_nil, releaseAll_nil]; rfl
  | cons b bs ih =>
    have hparts : m.Owns ([b] ++ bs) := h
    have hfirst := h.free List.mem_cons_self
    rw [Memory.freeEach, List.foldlM_cons, hfirst]
    refine (ih hparts.after).trans ?_
    rw [hparts.releaseAll_after]
    rfl

/-- From `m` to `m₁` some blocks were handed out, and from `m₁` to `m₂` they were freed. -/
structure Undone (m m₁ m₂ : Memory) : Prop where
  /-- The blocks that were handed out, each of them live, were freed once and with their own size
  and alignment. -/
  freed : ∃ bs, m₁.ledger = bs.reverse ++ m.ledger ∧ (∀ b ∈ bs, b.live = true) ∧
    m₁.freeEach bs = .ok m₂
  /-- The live blocks are those of before. -/
  liveBlocks : m₂.liveBlocks = m.liveBlocks
  /-- Freeing changes no byte. -/
  bytes : m₂.bytes = m₁.bytes

theorem Grows.undone (h : Grows lo hi bs m m₁) :
    Undone m m₁ (m₁.releaseAll (Block.starts bs)) where
  freed := ⟨bs, h.ledger, fun _ hb => (h.packed.of_mem hb).2.2.live, h.owns.freeEach⟩
  liveBlocks := h.liveBlocks_releaseAll
  bytes := rfl

end Memory

namespace Abi

variable {abi : Abi} {id : TypeId} {v : Value} {m m₁ : Memory} {ws : List Word} {l : Layout}
  {p : Nat}

/-- Freeing the words that a value was lowered to undoes the lowering. -/
theorem freeFlat_lowerFlat (hc : abi.arena.CasesFit)
    (h : runOn (abi.lowerFlat id v) m = (.ok ws, m₁)) (hm : m₁.size < UInt32.size) :
    ∃ m₂, runOn (abi.freeFlat id ws) m₁ = (.ok (), m₂) ∧ Undone m m₁ m₂ := by
  have hrun : (abi.lowerFlat id v).Succeeds := .of_runOn h
  obtain ⟨n, hn⟩ := native_of_lowerWithin hrun
  obtain ⟨kinds, hk⟩ := flatten_of_lowerWithin hrun
  obtain ⟨ws', m', bs, hrun', hg, -, hcarried⟩ := runOn_lowerFlat hc hn hk m
  cases h.symm.trans hrun'
  have hf := fits_nativeWithin hc (indexable_shape hc id) hn
  have hd := enough_depth (not_unresolved_of_fits hf) (length_le_of_grows hg)
  exact ⟨_, runOn_freeFlat (hcarried hm) hg.owns hd, hg.undone⟩

/-- Freeing a value where it was stored undoes the storing. -/
theorem freeStored_store (hc : abi.arena.CasesFit) (hl : abi.layout id = .ok l)
    (hp : m.Covers p (p + l.size)) (h : runOn (abi.store id v p) m = (.ok (), m₁))
    (hm : m₁.size < UInt32.size) :
    ∃ m₂, runOn (abi.freeStored id p) m₁ = (.ok (), m₂) ∧ Undone m m₁ m₂ := by
  obtain ⟨n, hn⟩ := native_of_storeWithin (.of_runOn h)
  obtain ⟨m', bs, hrun, hg, hstored⟩ := runOn_store hc hn hl hp
  cases h.symm.trans hrun
  have hf := fits_nativeWithin hc (indexable_shape hc id) hn
  have hd := enough_depth (not_unresolved_of_fits hf) (length_le_of_grows hg)
  exact ⟨_, runOn_freeStored (hstored hm) rfl hg.owns hd, hg.undone⟩

/-- Freeing undoes lowering exactly, whether the value went through words or into an area of its
type's size. -/
theorem free_undoes_lower (hc : abi.arena.CasesFit) (id : TypeId) (v : Value) (m : Memory) :
    (∀ ws m₁, runOn (abi.lowerFlat id v) m = (.ok ws, m₁) → m₁.size < UInt32.size →
      ∃ m₂, runOn (abi.freeFlat id ws) m₁ = (.ok (), m₂) ∧ Undone m m₁ m₂) ∧
    ∀ l p m₁, abi.layout id = .ok l → m.Covers p (p + l.size) →
      runOn (abi.store id v p) m = (.ok (), m₁) → m₁.size < UInt32.size →
      ∃ m₂, runOn (abi.freeStored id p) m₁ = (.ok (), m₂) ∧ Undone m m₁ m₂ :=
  ⟨fun _ _ h hm => freeFlat_lowerFlat hc h hm,
    fun _ _ _ hl hp h hm => freeStored_store hc hl hp h hm⟩

/-- A packet that is lowered beside a live block. -/
theorem free_undoes_lower_packet :
    runOn (packet.lowerFlat ⟨3⟩ shuffledPacket) ⟨[0, 5], [⟨1, 1, 1, true⟩]⟩ =
        (.ok [.i32 2, .i32 2, .i32 5], ⟨[0, 5, 7, 9], [⟨2, 2, 1, true⟩, ⟨1, 1, 1, true⟩]⟩) ∧
      ∃ m₂, runOn (packet.freeFlat ⟨3⟩ [.i32 2, .i32 2, .i32 5])
          ⟨[0, 5, 7, 9], [⟨2, 2, 1, true⟩, ⟨1, 1, 1, true⟩]⟩ = (.ok (), m₂) ∧
        Undone ⟨[0, 5], [⟨1, 1, 1, true⟩]⟩
          ⟨[0, 5, 7, 9], [⟨2, 2, 1, true⟩, ⟨1, 1, 1, true⟩]⟩ m₂ := by
  have hlower : runOn (packet.lowerFlat ⟨3⟩ shuffledPacket) ⟨[0, 5], [⟨1, 1, 1, true⟩]⟩ =
    (.ok [.i32 2, .i32 2, .i32 5], ⟨[0, 5, 7, 9], [⟨2, 2, 1, true⟩, ⟨1, 1, 1, true⟩]⟩) := rfl
  exact ⟨hlower, (free_undoes_lower (by decide) _ _ _).1 _ _ hlower (by decide)⟩

end Abi

end ComponentAbi
