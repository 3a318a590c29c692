import ComponentAbi.Proofs.Memory.Growth
import Mathlib.Data.List.Nodup

/-!
# Freeing owned blocks

Freeing a block changes the ledger at the newest block of that address. `Block.releaseAll` is the
ledger after freeing at several addresses, in whatever order, and `Memory.Owns` says that some
blocks can all be freed.

* `Memory.Owns.free` : an owned block is freed with its own size and alignment, and with nothing
  else changed;
* `Memory.Owns.releaseAll` : freeing blocks elsewhere leaves the others owned;
* `Memory.Grows.owns` : blocks that were just handed out are owned;
* `Block.releaseAll_append` : if all the addresses are among those of the newer blocks, the older
  blocks are not touched.
-/

namespace ComponentAbi

namespace Block

variable {ledger news old : List Block} {ps ps' : List Nat}

/-- The addresses of blocks. -/
abbrev starts (bs : List Block) : List Nat :=
  bs.map (·.start)

/-- A ledger after the newest block at each of the given addresses was freed. -/
def releaseAll (ps : List Nat) : List Block → List Block
  | [] => []
  | b :: older =>
    if b.start ∈ ps then b.release :: releaseAll (ps.filter (· ≠ b.start)) older
    else b :: releaseAll ps older

/-- The block after those at the given addresses were freed. -/
def releaseIn (ps : List Nat) (b : Block) : Block :=
  if b.start ∈ ps then b.release else b

@[simp] theorem releaseAll_nil (ledger : List Block) : releaseAll [] ledger = ledger := by
  induction ledger with
  | nil => rfl
  | cons b older ih => simp [releaseAll, ih]

/-- The order of the addresses does not matter, nor do repetitions. -/
theorem releaseAll_congr (h : ∀ p, p ∈ ps ↔ p ∈ ps') (ledger : List Block) :
    releaseAll ps ledger = releaseAll ps' ledger := by
  induction ledger generalizing ps ps' with
  | nil => rfl
  | cons b older ih =>
    have hf : ∀ p, p ∈ ps.filter (· ≠ b.start) ↔ p ∈ ps'.filter (· ≠ b.start) :=
      fun p => by simp only [List.mem_filter, h p]
    simp only [releaseAll, h b.start, ih h, ih hf]

theorem filter_ne_of_not_mem {p : Nat} (h : p ∉ ps) : ps.filter (· ≠ p) = ps := by
  rw [List.filter_eq_self]
  rintro q hq
  simpa using fun hqp : q = p => h (hqp ▸ hq)

theorem releaseAll_releaseAll (h : ∀ p ∈ ps, p ∉ ps') (ledger : List Block) :
    releaseAll ps' (releaseAll ps ledger) = releaseAll (ps ++ ps') ledger := by
  induction ledger generalizing ps ps' with
  | nil => rfl
  | cons b older ih =>
    by_cases h₁ : b.start ∈ ps
    · have h₂ := h _ h₁
      have hd : ∀ p ∈ ps.filter (· ≠ b.start), p ∉ ps' :=
        fun p hp => h p (List.mem_filter.1 hp).1
      simp only [releaseAll, h₁, ↓reduceIte, release, h₂, List.mem_append, true_or,
        List.filter_append, filter_ne_of_not_mem h₂, ih hd]
    · by_cases h₂ : b.start ∈ ps'
      · have hd : ∀ p ∈ ps, p ∉ ps'.filter (· ≠ b.start) :=
          fun p hp hp' => h p hp (List.mem_filter.1 hp').1
        simp only [releaseAll, h₁, ↓reduceIte, h₂, List.mem_append, or_true,
          List.filter_append, filter_ne_of_not_mem h₁, ih hd]
      · simp only [releaseAll, h₁, ↓reduceIte, h₂, List.mem_append, or_self, ih h]

/-- The block at another address is still the newest there. -/
theorem find?_releaseAll {p : Nat} (h : p ∉ ps) (ledger : List Block) :
    (releaseAll ps ledger).find? (·.start == p) = ledger.find? (·.start == p) := by
  induction ledger generalizing ps with
  | nil => rfl
  | cons b older ih =>
    by_cases hb : b.start ∈ ps
    · have hne : (b.start == p) = false := by
        simpa using fun he : b.start = p => h (he ▸ hb)
      have hf : p ∉ ps.filter (· ≠ b.start) := fun hp => h (List.mem_filter.1 hp).1
      simp only [releaseAll, hb, ↓reduceIte, List.find?_cons, release, hne, ih hf]
    · simp only [releaseAll, hb, ↓reduceIte, List.find?_cons, ih h]

theorem releaseAll_append (hn : (news.map (·.start)).Nodup)
    (hs : ∀ p ∈ ps, p ∈ news.map (·.start)) :
    releaseAll ps (news ++ old) = news.map (releaseIn ps) ++ old := by
  induction news generalizing ps with
  | nil =>
    have : ps = [] := List.eq_nil_iff_forall_not_mem.2 fun p hp => by simpa using hs p hp
    simp [this]
  | cons b rest ih =>
    rw [List.map_cons, List.nodup_cons] at hn
    have hmap : ∀ c ∈ rest, (c.start ∈ ps.filter (· ≠ b.start) ↔ c.start ∈ ps) := by
      intro c hc
      have hne : c.start ≠ b.start := fun he => hn.1 (he ▸ List.mem_map_of_mem hc)
      simp [List.mem_filter, hne]
    by_cases hb : b.start ∈ ps
    · have hf : ∀ p ∈ ps.filter (· ≠ b.start), p ∈ rest.map (·.start) := by
        intro p hp
        obtain ⟨hp, hne⟩ := List.mem_filter.1 hp
        rcases List.mem_cons.1 (hs p hp) with rfl | hp
        · simp at hne
        · exact hp
      have hrest : rest.map (releaseIn (ps.filter (· ≠ b.start))) = rest.map (releaseIn ps) :=
        List.map_congr_left fun c hc => by simp only [releaseIn, hmap c hc]
      simp only [List.cons_append, releaseAll, hb, ↓reduceIte, ih hn.2 hf, List.map_cons, hrest]
      simp only [releaseIn, hb, ↓reduceIte]
    · have hf : ∀ p ∈ ps, p ∈ rest.map (·.start) := by
        intro p hp
        rcases List.mem_cons.1 (hs p hp) with rfl | hp'
        · exact absurd hp hb
        · exact hp'
      simp only [List.cons_append, releaseAll, hb, ↓reduceIte, ih hn.2 hf, List.map_cons,
        releaseIn]

theorem nodup_starts_append {bs₁ bs₂ : List Block} :
    (starts (bs₁ ++ bs₂)).Nodup ↔
      (starts bs₁).Nodup ∧ (starts bs₂).Nodup ∧ ∀ p ∈ starts bs₁, p ∉ starts bs₂ := by
  rw [starts, List.map_append, List.nodup_append]
  refine and_congr_right fun _ => and_congr_right fun _ => ⟨?_, ?_⟩
  · exact fun h p h₁ h₂ => h p h₁ p h₂ rfl
  · exact fun h p h₁ q h₂ he => h p h₁ (he ▸ h₂)

theorem nodup_starts_reverse {bs : List Block} :
    (starts bs.reverse).Nodup ↔ (starts bs).Nodup := by
  rw [starts, List.map_reverse, List.nodup_reverse]

theorem find?_of_mem_of_nodup (hn : (ledger.map (·.start)).Nodup) {b : Block} (hb : b ∈ ledger) :
    ledger.find? (·.start == b.start) = some b := by
  induction ledger with
  | nil => cases hb
  | cons c older ih =>
    rw [List.map_cons, List.nodup_cons] at hn
    rcases List.mem_cons.1 hb with rfl | hb
    · simp
    · have hne : (c.start == b.start) = false := by
        simpa using fun he : c.start = b.start => hn.1 (he ▸ List.mem_map_of_mem hb)
      rw [List.find?_cons, hne, ih hn.2 hb]

end Block

namespace Memory

variable {m m' : Memory} {lo hi : Nat} {bs bs₁ bs₂ : List Block} {ps : List Nat}

/-- The memory after the newest block at each of the given addresses was freed. -/
def releaseAll (m : Memory) (ps : List Nat) : Memory :=
  { m with ledger := Block.releaseAll ps m.ledger }

@[simp] theorem bytes_releaseAll (m : Memory) (ps : List Nat) :
    (m.releaseAll ps).bytes = m.bytes :=
  rfl

@[simp] theorem size_releaseAll (m : Memory) (ps : List Nat) :
    (m.releaseAll ps).size = m.size :=
  rfl

@[simp] theorem releaseAll_nil (m : Memory) : m.releaseAll [] = m := by
  simp [releaseAll]

theorem releaseAll_releaseAll {ps' : List Nat} (h : ∀ p ∈ ps, p ∉ ps') :
    (m.releaseAll ps).releaseAll ps' = m.releaseAll (ps ++ ps') := by
  simp only [releaseAll, Block.releaseAll_releaseAll h]

theorem releaseAll_congr {ps' : List Nat} (h : ∀ p, p ∈ ps ↔ p ∈ ps') :
    m.releaseAll ps = m.releaseAll ps' := by
  simp only [releaseAll, Block.releaseAll_congr h]

/-- The blocks are at different addresses, each is the newest at its address, and all of them are
waiting to be freed. -/
structure Owns (m : Memory) (bs : List Block) : Prop where
  /-- No two have one address. -/
  nodup : (Block.starts bs).Nodup
  /-- Each can be freed. -/
  held : ∀ b ∈ bs, b.Held
  /-- Each is found at its address. -/
  found : ∀ b ∈ bs, m.ledger.find? (·.start == b.start) = some b

theorem releaseAt_of_find? {ledger : List Block} {b : Block} (hb : b.Held)
    (h : ledger.find? (·.start == b.start) = some b) :
    releaseAt b.start b.size b.align ledger = .ok (Block.releaseAll [b.start] ledger) := by
  induction ledger with
  | nil => cases h
  | cons c older ih =>
    by_cases hc : c.start = b.start
    · rw [List.find?_cons, hc, beq_self_eq_true] at h
      cases h
      simp [releaseAt, hb.live, Block.releaseAll]
    · have hne : (c.start == b.start) = false := by simpa using hc
      rw [List.find?_cons, hne] at h
      simp [releaseAt, hc, ih h, Block.releaseAll, Except.map]

theorem Owns.free (h : m.Owns bs) {b : Block} (hb : b ∈ bs) :
    m.free b.start b.size b.align = .ok (m.releaseAll [b.start]) := by
  have hh := h.held b hb
  have hs : b.size ≠ 0 := by have := hh.size_pos; omega
  have ha : max b.align 1 = b.align := by have := hh.align_pos; omega
  simp only [Memory.free, hs, ↓reduceIte, ha, releaseAt_of_find? hh (h.found b hb), Except.map,
    Memory.releaseAll]

theorem Owns.nil (m : Memory) : m.Owns [] :=
  ⟨List.nodup_nil, fun _ h => by (cases h), fun _ h => by (cases h)⟩

theorem Owns.left (h : m.Owns (bs₁ ++ bs₂)) : m.Owns bs₁ :=
  ⟨(Block.nodup_starts_append.1 h.nodup).1, fun b hb => h.held b (List.mem_append_left _ hb),
    fun b hb => h.found b (List.mem_append_left _ hb)⟩

theorem Owns.right (h : m.Owns (bs₁ ++ bs₂)) : m.Owns bs₂ :=
  ⟨(Block.nodup_starts_append.1 h.nodup).2.1, fun b hb => h.held b (List.mem_append_right _ hb),
    fun b hb => h.found b (List.mem_append_right _ hb)⟩

theorem Owns.disjoint (h : m.Owns (bs₁ ++ bs₂)) :
    ∀ p ∈ Block.starts bs₁, p ∉ Block.starts bs₂ :=
  (Block.nodup_starts_append.1 h.nodup).2.2

theorem Owns.append (h₁ : m.Owns bs₁) (h₂ : m.Owns bs₂)
    (hd : ∀ p ∈ Block.starts bs₁, p ∉ Block.starts bs₂) : m.Owns (bs₁ ++ bs₂) where
  nodup := Block.nodup_starts_append.2 ⟨h₁.nodup, h₂.nodup, hd⟩
  held b hb := (List.mem_append.1 hb).elim (h₁.held b) (h₂.held b)
  found b hb := (List.mem_append.1 hb).elim (h₁.found b) (h₂.found b)

theorem Owns.releaseAll (h : m.Owns bs) (hd : ∀ p ∈ Block.starts bs, p ∉ ps) :
    (m.releaseAll ps).Owns bs :=
  ⟨h.nodup, h.held, fun b hb => by
    rw [Memory.releaseAll, Block.find?_releaseAll (hd _ (List.mem_map_of_mem hb)), h.found b hb]⟩

/-- Once the first blocks are freed, the others are still owned. -/
theorem Owns.after (h : m.Owns (bs₁ ++ bs₂)) : (m.releaseAll (Block.starts bs₁)).Owns bs₂ :=
  h.right.releaseAll fun p hp hp' => h.disjoint p hp' hp

theorem Grows.owns (h : Grows lo hi bs m m') : m'.Owns bs where
  nodup := h.packed.nodup
  held b hb := (h.packed.of_mem hb).2.2
  found b hb := by
    have hn := Block.nodup_starts_reverse.2 h.packed.nodup
    rw [h.ledger, List.find?_append,
      Block.find?_of_mem_of_nodup hn (List.mem_reverse.2 hb), Option.some_or]

/-- Blocks that were owned before newer ones were handed out are still owned. -/
theorem Owns.grows (h : m.Owns bs₁) (hlt : ∀ b ∈ bs₁, b.start < m.size)
    (hg : Grows lo hi bs m m') : m'.Owns bs₁ :=
  ⟨h.nodup, h.held, fun b hb => by
    have hnone : bs.reverse.find? (·.start == b.start) = none := by
      rw [List.find?_eq_none]
      intro c hc
      have := (hg.packed.of_mem (List.mem_reverse.1 hc)).1
      have := hlt b hb
      simp only [beq_iff_eq]
      omega
    rw [hg.ledger, List.find?_append, hnone, Option.none_or, h.found b hb]⟩

/-- New blocks are owned beside older ones. -/
theorem Grows.owns_append (hg : Grows lo hi bs m m') (h : m.Owns bs₁)
    (hlt : ∀ b ∈ bs₁, b.start < m.size) : m'.Owns (bs ++ bs₁) :=
  hg.owns.append (h.grows hlt hg) fun p hp hp' => by
    obtain ⟨b, hb, rfl⟩ := List.mem_map.1 hp
    obtain ⟨c, hc, he⟩ := List.mem_map.1 hp'
    have := (hg.packed.of_mem hb).1
    have := hlt c hc
    omega

end Memory

end ComponentAbi
