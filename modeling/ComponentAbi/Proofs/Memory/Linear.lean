import ComponentAbi.LinearMemory
import ComponentAbi.Proofs.Memory.History

/-!
# Linear memory and its ledger

`LinearMemory` keeps its live allocations, the freed addresses and the counters in fields of their
own, `Memory` keeps one ledger. `LinearMemory.Tracks` says that each of the fields is what the
ledger says, and every request keeps it so, as long as addresses fit in 32 bits.

* `LinearMemory.Tracks.serve`, `LinearMemory.Tracks.serveAll` : whatever is asked, both give the
  same answers, and the fields say what the ledger says;
* `LinearMemory.Orderly`, `LinearMemory.orderly_serveAll` : what the fields are at every point of a
  run, and what can be relied on.
-/

namespace ComponentAbi

/-! ### The live allocations of a ledger -/

namespace Block

variable {bs older newer : List Block} {b : Block} {seq : Nat} {e : Nat × Allocation}

/-- The live allocations among some blocks, which are numbered from `seq` on. -/
def allocated (seq : Nat) : List Block → List (Nat × Allocation)
  | [] => []
  | b :: newer =>
    if b.live then (b.start, ⟨b.size, b.align, seq⟩) :: allocated (seq + 1) newer
    else allocated (seq + 1) newer

theorem allocated_append (seq : Nat) (older newer : List Block) :
    allocated seq (older ++ newer) =
      allocated seq older ++ allocated (seq + older.length) newer := by
  induction older generalizing seq with
  | nil => rfl
  | cons b older ih =>
    have hseq : seq + (b :: older).length = seq + 1 + older.length := by
      rw [List.length_cons]
      omega
    rw [List.cons_append, allocated, allocated, ih, hseq]
    split <;> rfl

/-- An allocation is numbered by the blocks before its own. -/
theorem mem_allocated : e ∈ allocated seq bs ↔ ∃ older b newer, bs = older ++ b :: newer ∧
    b.live = true ∧ e = (b.start, ⟨b.size, b.align, seq + older.length⟩) := by
  constructor
  · intro he
    induction bs generalizing seq with
    | nil => cases he
    | cons b newer ih =>
      rw [allocated] at he
      split at he
      · rcases List.mem_cons.1 he with rfl | he
        · exact ⟨[], b, newer, rfl, ‹_›, rfl⟩
        · obtain ⟨older, c, rest, rfl, hc, rfl⟩ := ih he
          exact ⟨b :: older, c, rest, rfl, hc, by simp [Nat.add_assoc, Nat.add_comm 1]⟩
      · obtain ⟨older, c, rest, rfl, hc, rfl⟩ := ih he
        exact ⟨b :: older, c, rest, rfl, hc, by simp [Nat.add_assoc, Nat.add_comm 1]⟩
  · rintro ⟨older, b, newer, rfl, hb, rfl⟩
    rw [allocated_append, allocated, if_pos hb]
    exact List.mem_append_right _ List.mem_cons_self

theorem start_mem_of_mem_allocated (he : e ∈ allocated seq bs) : e.1 ∈ starts bs := by
  obtain ⟨older, b, newer, rfl, -, rfl⟩ := mem_allocated.1 he
  exact List.mem_map_of_mem (List.mem_append_right _ List.mem_cons_self)

/-- What does not depend on the numbers is read off the live blocks. -/
theorem map_allocated {α : Type} {f : Nat × Allocation → α} {g : Block → α}
    (h : ∀ b seq, f (b.start, ⟨b.size, b.align, seq⟩) = g b) (seq : Nat) (bs : List Block) :
    (allocated seq bs).map f = (bs.filter (·.live)).map g := by
  induction bs generalizing seq with
  | nil => rfl
  | cons b newer ih =>
    rw [allocated]
    cases hb : b.live <;> simp [hb, ih, h]

/-- The allocations from a number on are those of the blocks from there on. -/
theorem filter_allocated (k seq : Nat) (bs : List Block) :
    (allocated seq bs).filter (k ≤ ·.2.seq) = allocated (max k seq) (bs.drop (k - seq)) := by
  induction bs generalizing seq with
  | nil => rw [List.drop_nil]; rfl
  | cons b newer ih =>
    by_cases hk : k ≤ seq
    · rw [Nat.sub_eq_zero_of_le hk, List.drop_zero, Nat.max_eq_right hk, List.filter_eq_self]
      intro e he
      obtain ⟨older, c, rest, -, -, rfl⟩ := mem_allocated.1 he
      exact decide_eq_true (Nat.le_trans hk (Nat.le_add_right _ _))
    · have hdrop : k - seq = (k - (seq + 1)) + 1 := by omega
      have hmax : max k seq = max k (seq + 1) := by omega
      rw [hdrop, List.drop_succ_cons, hmax, ← ih, allocated]
      split
      · rw [List.filter_cons_of_neg (by simpa using hk)]
      · rfl

/-- Those that were handed out later are told by their numbers as well as by their addresses. -/
theorem le_seq_iff (hn : (starts (older ++ newer)).Nodup)
    (he : e ∈ allocated 0 (older ++ newer)) : older.length ≤ e.2.seq ↔ e.1 ∈ starts newer := by
  have hdisjoint := (nodup_starts_append.1 hn).2.2
  rw [allocated_append] at he
  rcases List.mem_append.1 he with he | he
  · refine iff_of_false ?_ (hdisjoint _ (start_mem_of_mem_allocated he))
    obtain ⟨before, b, after, rfl, -, rfl⟩ := mem_allocated.1 he
    simp
  · refine iff_of_true ?_ (start_mem_of_mem_allocated he)
    obtain ⟨before, b, after, rfl, -, rfl⟩ := mem_allocated.1 he
    simp

theorem filter_allocated_ne {p : Nat} (h : p ∉ starts bs) (seq : Nat) :
    (allocated seq bs).filter (·.1 ≠ p) = allocated seq bs :=
  List.filter_eq_self.2 fun _ he =>
    decide_eq_true fun heq => h (heq ▸ start_mem_of_mem_allocated he)

/-- Freeing a block takes its allocation away, and leaves the others their numbers. -/
theorem allocated_release (hn : (starts (older ++ b :: newer)).Nodup) (seq : Nat) :
    allocated seq (older ++ b.release :: newer) =
      (allocated seq (older ++ b :: newer)).filter (·.1 ≠ b.start) := by
  obtain ⟨-, hlater, hdisjoint⟩ := nodup_starts_append.1 hn
  have holder : b.start ∉ starts older := fun hmem => hdisjoint _ hmem List.mem_cons_self
  have hnewer : b.start ∉ starts newer := (List.nodup_cons.1 hlater).1
  rw [allocated_append, allocated_append, List.filter_append, filter_allocated_ne holder]
  cases hb : b.live <;>
    simp only [allocated, release, hb, Bool.false_eq_true, ↓reduceIte, filter_allocated_ne hnewer]
  rw [List.filter_cons_of_neg (by simp), filter_allocated_ne hnewer]

theorem release_of_dead (h : b.live = false) : b.release = b := by
  cases b
  cases h
  rfl

theorem allocated_map_releaseIn (hlive : ∀ b ∈ bs, b.live = true) (ps : List Nat) (seq : Nat) :
    allocated seq (bs.map (releaseIn ps)) = (allocated seq bs).filter (·.1 ∉ ps) := by
  induction bs generalizing seq with
  | nil => rfl
  | cons b newer ih =>
    have hb := hlive b List.mem_cons_self
    rw [List.map_cons, allocated, allocated, ih fun c hc => hlive c (List.mem_cons_of_mem _ hc),
      if_pos hb]
    by_cases hp : b.start ∈ ps <;> simp [releaseIn, hp, release, hb]

theorem releaseAll_singleton (hn : (starts (newer ++ b :: older)).Nodup) :
    releaseAll [b.start] (newer ++ b :: older) = newer ++ b.release :: older := by
  have hn' : (starts (newer ++ [b])).Nodup := by
    rw [List.append_cons] at hn
    exact (nodup_starts_append.1 hn).1
  have hnewer : newer.map (releaseIn [b.start]) = newer := by
    conv_rhs => rw [← List.map_id newer]
    refine List.map_congr_left fun c hc => releaseIn_of_not_mem fun hmem => ?_
    refine (nodup_starts_append.1 hn').2.2 _ (List.mem_map_of_mem hc) ?_
    simpa using hmem
  rw [List.append_cons, releaseAll_append hn' (by simp), List.map_append, hnewer]
  simp [releaseIn]

/-- To free the blocks after the first `k`, it is enough to free those that are live. -/
theorem map_releaseIn_live (hn : (starts bs).Nodup) (k : Nat) :
    bs.map (releaseIn (starts ((bs.drop k).filter (·.live)))) =
      bs.take k ++ (bs.drop k).map release := by
  have hsub : starts ((bs.drop k).filter (·.live)) ⊆ starts (bs.drop k) :=
    (List.filter_sublist.map _).subset
  have hold : (bs.take k).map (releaseIn []) = bs.take k :=
    List.map_id'' (fun _ => releaseIn_of_not_mem List.not_mem_nil) _
  rw [← List.nil_append (starts _), map_releaseIn_append hn hsub, hold, List.nil_append]
  refine congrArg (bs.take k ++ ·) (List.map_congr_left fun b hb => ?_)
  cases hl : b.live
  · rw [releaseIn, release_of_dead hl, ite_self]
  · exact if_pos (List.mem_map_of_mem (List.mem_filter.2 ⟨hb, hl⟩))

theorem starts_releaseAll (ps : List Nat) (bs : List Block) :
    starts (releaseAll ps bs) = starts bs := by
  induction bs generalizing ps with
  | nil => rfl
  | cons b older ih =>
    rw [releaseAll]
    split <;> simp_all [release]

end Block

namespace Memory

variable {m : Memory} {events : List Event}

theorem Booked.nodup_ledger (h : Booked events m) : (Block.starts m.ledger).Nodup := by
  rw [h.ledger]
  exact Block.nodup_starts_reverse.2 h.nodup

theorem Booked.starts_lt (h : Booked events m) :
    ∀ p ∈ Block.starts m.ledger, p < max m.size 1 := by
  intro p hp
  rw [h.ledger, Block.mem_starts_reverse, Block.starts_map_releaseIn] at hp
  obtain ⟨b, hb, rfl⟩ := List.mem_map.1 hp
  exact h.start_lt hb

/-- Blocks in a row have room for all of their bytes. -/
theorem Packed.sum_le {lo hi : Nat} {bs : List Block} (h : Packed lo hi bs) :
    lo + (bs.map (·.size)).sum ≤ hi := by
  induction bs generalizing lo with
  | nil => exact h
  | cons b rest ih =>
    obtain ⟨hlo, -, hrest⟩ := h
    have := ih hrest
    rw [List.map_cons, List.sum_cons]
    omega

end Memory

namespace LinearMemory

open Memory

variable {l l' : LinearMemory} {m m' : Memory} {events : List Event} {a : Allocation}
  {p size align : Nat} {entries doomed : List (Nat × Allocation)}

/-! ### The fields and the ledger -/

/-- Every field is what the ledger says. -/
structure Tracks (l : LinearMemory) (m : Memory) : Prop where
  /-- The bytes are the same. -/
  data : l.data = m.bytes
  /-- The live allocations are the live blocks, numbered in the order of the ledger. -/
  live : l.live = Block.allocated 0 m.ledger.reverse
  /-- The freed addresses are those of the blocks that are not live. -/
  freed : ∀ p, p ∈ l.freed ↔ ∃ b ∈ m.ledger, b.live = false ∧ b.start = p
  /-- The counters are those of the ledger. -/
  stats : l.stats = m.stats
  /-- The next allocation is behind those of the ledger. -/
  nextSeq : l.nextSeq = m.mark

theorem tracks_ofBytes (data : List UInt8) : (ofBytes data).Tracks ⟨data, []⟩ where
  data := rfl
  live := rfl
  freed p := by simp [ofBytes]
  stats := rfl
  nextSeq := rfl

theorem Tracks.size_eq (h : l.Tracks m) : l.size = m.size :=
  congrArg List.length h.data

theorem Tracks.start_mem (h : l.Tracks m) {e : Nat × Allocation} (he : e ∈ l.live) :
    e.1 ∈ Block.starts m.ledger := by
  rw [h.live] at he
  exact Block.mem_starts_reverse.1 (Block.start_mem_of_mem_allocated he)

theorem Tracks.pointers_eq (h : l.Tracks m) :
    l.live.map (·.1) = Block.starts (m.ledger.reverse.filter (·.live)) := by
  rw [h.live]
  exact Block.map_allocated (fun _ _ => rfl) 0 _

theorem Tracks.nodup_pointers (h : l.Tracks m) (hn : (Block.starts m.ledger).Nodup) :
    (l.live.map (·.1)).Nodup := by
  rw [h.pointers_eq]
  exact (Block.nodup_starts_reverse.2 hn).sublist (List.filter_sublist.map _)

/-! ### Blocks are handed out -/

theorem insertAt_of_lt (h : ∀ e ∈ entries, e.1 < p) :
    insertAt p a entries = entries ++ [(p, a)] := by
  induction entries with
  | nil => rfl
  | cons e rest ih =>
    have hlt := h e List.mem_cons_self
    rw [insertAt, if_neg (by omega), if_neg (by omega),
      ih fun e' he' => h e' (List.mem_cons_of_mem _ he'), List.cons_append]

/-- A block at a new address is put behind all others. -/
theorem Tracks.alloc (h : l.Tracks m) (hbelow : ∀ p ∈ Block.starts m.ledger, p < max m.size 1)
    (hlt : (l.alloc size align).2.size < UInt32.size) :
    (l.alloc size align).1 = (m.alloc size align).1 ∧
      (l.alloc size align).2.Tracks (m.alloc size align).2 := by
  by_cases hs : size = 0
  · subst hs
    exact ⟨rfl, h⟩
  obtain ⟨hle, -⟩ := alloc_eq m hs align
  have hlen := h.size_eq
  have hdata : l.data.length = l.size := rfl
  simp only [LinearMemory.alloc, Memory.alloc, hs, ↓reduceIte, hlen] at hlt hle ⊢
  -- The block is inside the memory, so its address is not cut to 32 bits.
  have hstart : alignUp (max m.size 1) (max align 1) % UInt32.size =
      alignUp (max m.size 1) (max align 1) := by
    refine Nat.mod_eq_of_lt ?_
    rw [LinearMemory.size, List.length_append, List.length_replicate] at hlt
    omega
  -- Every live allocation was handed out before it, and is in front of it.
  have hbehind : ∀ e ∈ l.live, e.1 < alignUp (max m.size 1) (max align 1) :=
    fun e he => Nat.lt_of_lt_of_le (hbelow _ (h.start_mem he)) hle
  rw [hstart, insertAt_of_lt hbehind]
  refine ⟨rfl, ?_, ?_, ?_, ?_, ?_⟩
  · rw [h.data]
  · rw [List.reverse_cons, Block.allocated_append, h.live, h.nextSeq]
    simp [Block.allocated, Memory.mark]
  · intro p
    simp [h.freed]
  · rw [h.stats]
    simp [Memory.stats, allocations, frees, bytesAllocated, bytesFreed, Nat.add_comm]
  · simp [h.nextSeq, Memory.mark]

/-! ### Blocks are freed -/

/-- A live allocation is a live block, somewhere in the ledger. -/
theorem Tracks.exists_block (h : l.Tracks m) (ha : (p, a) ∈ l.live) :
    ∃ newer b older, m.ledger = newer ++ b :: older ∧ b.live = true ∧ b.start = p ∧
      a = ⟨b.size, b.align, older.length⟩ := by
  rw [h.live] at ha
  obtain ⟨older, b, newer, hsplit, hb, he⟩ := Block.mem_allocated.1 ha
  cases he
  refine ⟨newer.reverse, b, older.reverse, ?_, hb, rfl, by simp⟩
  rw [List.reverse_eq_iff] at hsplit
  simp [hsplit]

theorem Tracks.release (h : l.Tracks m) (hn : (Block.starts m.ledger).Nodup)
    (ha : (p, a) ∈ l.live) : (l.release p a).Tracks (m.releaseAll [p]) := by
  obtain ⟨newer, b, older, hledger, hb, rfl, rfl⟩ := h.exists_block ha
  rw [hledger] at hn
  have hafter : (m.releaseAll [b.start]).ledger = newer ++ b.release :: older := by
    rw [Memory.releaseAll, hledger, Block.releaseAll_singleton hn]
  refine ⟨h.data, ?_, fun q => ?_, ?_, ?_⟩
  · -- The ledger has the newest block first, the live allocations the oldest.
    have hn' : (Block.starts (older.reverse ++ b :: newer.reverse)).Nodup := by
      simpa using Block.nodup_starts_reverse.2 hn
    have hbefore : m.ledger.reverse = older.reverse ++ b :: newer.reverse := by simp [hledger]
    have hthen : (newer ++ b.release :: older).reverse =
        older.reverse ++ b.release :: newer.reverse := by simp
    rw [LinearMemory.release, h.live, hafter, hbefore, hthen, Block.allocated_release hn']
  · simp only [LinearMemory.release, List.mem_insert_iff, h.freed, hafter, hledger, List.mem_append,
      List.mem_cons, or_and_right, exists_or, exists_eq_left, hb, Block.release]
    grind
  · rw [LinearMemory.release, h.stats]
    simp [Memory.stats, allocations, frees, bytesAllocated, bytesFreed, hafter, hledger, hb,
      Block.release]
    omega
  · rw [LinearMemory.release, h.nextSeq, Memory.mark, Memory.mark, hafter, hledger]
    simp

/-- Freed one after the other, live allocations are freed in the ledger all at once. -/
theorem Tracks.releaseAll (h : l.Tracks m) (hn : (Block.starts m.ledger).Nodup)
    (hdoomed : (doomed.map (·.1)).Nodup) (hsub : doomed ⊆ l.live) :
    (doomed.foldl (fun l (p, a) => l.release p a) l).Tracks (m.releaseAll (doomed.map (·.1))) := by
  induction doomed generalizing l m with
  | nil =>
    rw [List.map_nil, releaseAll_nil]
    exact h
  | cons e rest ih =>
    obtain ⟨p, a⟩ := e
    obtain ⟨hp, hrest⟩ := List.nodup_cons.1 hdoomed
    obtain ⟨ha, hsub⟩ := List.cons_subset.1 hsub
    have hn' : (Block.starts (m.releaseAll [p]).ledger).Nodup := by
      rw [Memory.releaseAll, Block.starts_releaseAll]
      exact hn
    -- Those that are still to be freed are at other addresses, so they stay live.
    have hlive : rest ⊆ (l.release p a).live := fun e he =>
      List.mem_filter.2 ⟨hsub he, decide_eq_true fun heq =>
        hp (List.mem_map.2 ⟨e, he, heq⟩)⟩
    have := ih (h.release hn ha) hn' hrest hlive
    rwa [releaseAll_releaseAll (by simpa using hp)] at this

/-- The later blocks that are live are all that there is to free. -/
theorem releaseAll_live (hn : (Block.starts m.ledger).Nodup) (k : Nat) :
    m.releaseAll (Block.starts ((m.ledger.reverse.drop k).filter (·.live))) =
      (m.releaseSince k).2 := by
  have hreverse := Block.nodup_starts_reverse.2 hn
  have hsub : ∀ p ∈ Block.starts ((m.ledger.reverse.drop k).filter (·.live)),
      p ∈ Block.starts m.ledger := fun p hp =>
    Block.mem_starts_reverse.1
      (((List.filter_sublist.trans (List.drop_sublist k _)).map _).subset hp)
  rw [releaseSince_eq (List.reverse_reverse _).symm, Memory.releaseAll,
    Block.releaseAll_eq_map hn hsub, ← Block.map_releaseIn_live hreverse, List.map_reverse,
    List.reverse_reverse]

theorem Tracks.releaseSince (h : l.Tracks m) (hn : (Block.starts m.ledger).Nodup) (k : Nat) :
    (l.releaseSince k).1 = (m.releaseSince k).1 ∧
      (l.releaseSince k).2.Tracks (m.releaseSince k).2 := by
  have hdoomed : l.live.filter (k ≤ ·.2.seq) = Block.allocated k (m.ledger.reverse.drop k) := by
    rw [h.live, Block.filter_allocated, Nat.sub_zero, Nat.max_eq_left (Nat.zero_le k)]
  have hpointers : (l.live.filter (k ≤ ·.2.seq)).map (·.1) =
      Block.starts ((m.ledger.reverse.drop k).filter (·.live)) := by
    rw [hdoomed]
    exact Block.map_allocated (fun _ _ => rfl) k _
  constructor
  · have hlength := congrArg List.length hpointers
    rw [List.length_map, List.length_map] at hlength
    rw [releaseSince_eq (List.reverse_reverse _).symm, List.countP_eq_length_filter]
    exact hlength
  · rw [← releaseAll_live hn, ← hpointers]
    exact h.releaseAll hn ((h.nodup_pointers hn).sublist (List.filter_sublist.map _))
      (List.filter_subset_self _)

/-! ### What is asked -/

/-- Two changes are refused alike, or both are made. -/
inductive Follows : Except AbiError LinearMemory → Except AbiError Memory → Prop
  | done {l : LinearMemory} {m : Memory} : l.Tracks m → Follows (.ok l) (.ok m)
  | refused (e : AbiError) : Follows (.error e) (.error e)

theorem Tracks.update (h : l.Tracks m) {change : Except AbiError LinearMemory}
    {change' : Except AbiError Memory} : Follows change change' →
    let after : Except AbiError Reply × Memory :=
      match change' with
      | .ok m' => (.ok .done, m')
      | .error e => (.error e, m)
    (l.update change).1 = after.1 ∧ (l.update change).2.Tracks after.2 := by
  intro hf
  cases hf with
  | done h' => exact ⟨rfl, h'⟩
  | refused e => exact ⟨rfl, h⟩

theorem Tracks.free (h : l.Tracks m) (hn : (Block.starts m.ledger).Nodup) (p size align : Nat) :
    Follows (l.free p size align) (m.free p size align) := by
  by_cases hs : size = 0
  · subst hs
    exact .done h
  rw [LinearMemory.free, Memory.free, if_neg hs, if_neg hs, releaseAt_eq]
  cases ha : l.live.lookup p with
  | some a =>
    have hmem : (p, a) ∈ l.live := by
      obtain ⟨before, after, hsplit, -⟩ := List.lookup_eq_some_iff.1 ha
      simp [hsplit]
    obtain ⟨newer, b, older, hledger, hb, rfl, rfl⟩ := h.exists_block hmem
    have hfound : m.ledger.find? (·.start == b.start) = some b :=
      Block.find?_of_mem_of_nodup hn (by simp [hledger])
    simp only [hfound, hb, Bool.true_eq_false, ↓reduceIte]
    split
    · exact .refused _
    · exact .done (h.release hn hmem)
  | none =>
    -- No live block is at the address: the ledger has a dead one there, or none.
    have hout : p ∉ Block.starts (m.ledger.reverse.filter (·.live)) := by
      rw [← h.pointers_eq]
      rintro hmem
      obtain ⟨e, he, rfl⟩ := List.mem_map.1 hmem
      simpa using List.lookup_eq_none_iff.1 ha e he
    cases hf : m.ledger.find? (·.start == p) with
    | none =>
      have hnever : p ∉ l.freed := by
        rw [h.freed]
        rintro ⟨b, hb, -, rfl⟩
        exact find?_start_eq_none.1 hf (List.mem_map_of_mem hb)
      simp only [hnever, ↓reduceIte]
      exact .refused _
    | some b =>
      obtain rfl : b.start = p := by simpa using List.find?_some hf
      have hb := List.mem_of_find?_eq_some hf
      have hdead : b.live = false := by
        rw [← Bool.not_eq_true]
        exact fun hlive => hout (List.mem_map_of_mem
          (List.mem_filter.2 ⟨List.mem_reverse.2 hb, hlive⟩))
      have honce : b.start ∈ l.freed := (h.freed _).2 ⟨b, hb, hdead, rfl⟩
      simp only [honce, hdead, ↓reduceIte]
      exact .refused _

theorem Tracks.write (h : l.Tracks m) (p : Nat) (data : List UInt8) :
    Follows (l.write p data) (m.write p data) := by
  rw [LinearMemory.write, Memory.write, h.size_eq]
  split
  · exact .done h
  · split
    · exact .done ⟨by rw [h.data], h.live, h.freed, h.stats, h.nextSeq⟩
    · exact .refused _

theorem Tracks.read (h : l.Tracks m) (p length : Nat) : l.read p length = m.read p length := by
  rw [LinearMemory.read, Memory.read, h.size_eq, h.data]

/-- Whatever is asked, the answer is the ledger's, and the fields still say what the ledger says. -/
theorem Tracks.serve (h : l.Tracks m) (hb : Booked events m) (request : Request)
    (hlt : (l.serve request).2.size < UInt32.size) :
    (l.serve request).1 = (request.serve.runOn m).1 ∧
      (l.serve request).2.Tracks (request.serve.runOn m).2 := by
  have hn := hb.nodup_ledger
  cases request with
  | alloc size align =>
    obtain ⟨haddress, htracks⟩ := h.alloc hb.starts_lt hlt
    exact ⟨congrArg (fun p => Except.ok (Reply.address p)) haddress, htracks⟩
  | free p size align =>
    rw [runOn_serve_free]
    exact h.update (h.free hn p size align)
  | mark => exact ⟨congrArg (fun k => Except.ok (Reply.point k)) h.nextSeq, h⟩
  | releaseSince k =>
    obtain ⟨hcount, htracks⟩ := h.releaseSince hn k
    exact ⟨congrArg (fun n => Except.ok (Reply.count n)) hcount, htracks⟩
  | read p length =>
    rw [runOn_serve_read, LinearMemory.serve, h.read]
    exact ⟨rfl, h⟩
  | write p data =>
    rw [runOn_serve_write]
    exact h.update (h.write p data)

/-! ### Runs -/

/-- What happens when a memory is asked for some things in order, and the memory afterwards. -/
def serveAll : List Request → LinearMemory → List Event × LinearMemory
  | [], l => ([], l)
  | request :: rest, l =>
    let (reply, l') := l.serve request
    let (events, last) := serveAll rest l'
    (⟨request, reply⟩ :: events, last)

theorem size_update {change : Except AbiError LinearMemory}
    (h : ∀ l', change = .ok l' → l'.size = l.size) : (l.update change).2.size = l.size := by
  cases change with
  | ok changed => exact h changed rfl
  | error e => rfl

theorem size_free (h : l.free p size align = .ok l') : l'.size = l.size := by
  rw [LinearMemory.free] at h
  split at h
  · cases h
    rfl
  · split at h
    · split at h <;> cases h
      rfl
    · split at h <;> cases h

theorem size_write {data : List UInt8} (h : l.write p data = .ok l') : l'.size = l.size := by
  rw [LinearMemory.write] at h
  split at h
  · cases h
    rfl
  · split at h
    · rename_i hle
      cases h
      have hlen : l.data.length = l.size := rfl
      rw [LinearMemory.size, List.length_append, List.length_append, List.length_take,
        List.length_drop]
      omega
    · cases h

theorem size_foldl_release (doomed : List (Nat × Allocation)) (l : LinearMemory) :
    (doomed.foldl (fun l (p, a) => l.release p a) l).size = l.size := by
  induction doomed generalizing l with
  | nil => rfl
  | cons e rest ih => exact ih (l.release e.1 e.2)

/-- A memory never shrinks. -/
theorem size_le_serve (l : LinearMemory) (request : Request) :
    l.size ≤ (l.serve request).2.size := by
  cases request with
  | alloc size align =>
    by_cases hs : size = 0
    · subst hs
      exact Nat.le_refl _
    · simp [serve, LinearMemory.alloc, hs, LinearMemory.size]
  | free p size align => exact Nat.le_of_eq (size_update fun _ => size_free).symm
  | mark | read => exact Nat.le_refl _
  | releaseSince k => exact Nat.le_of_eq (size_foldl_release _ l).symm
  | write p data => exact Nat.le_of_eq (size_update fun _ => size_write).symm

theorem size_le_serveAll (requests : List Request) (l : LinearMemory) :
    l.size ≤ (serveAll requests l).2.size := by
  induction requests generalizing l with
  | nil => exact Nat.le_refl _
  | cons request rest ih => exact Nat.le_trans (l.size_le_serve request) (ih _)

/-- A run answers as the ledger does. -/
theorem Tracks.serveAll (h : l.Tracks m) (hb : Booked events m) (requests : List Request)
    (hlt : (serveAll requests l).2.size < UInt32.size) :
    (serveAll requests l).1 = (Memory.serveAll requests m).1 ∧
      (serveAll requests l).2.Tracks (Memory.serveAll requests m).2 := by
  induction requests generalizing l m events with
  | nil => exact ⟨rfl, h⟩
  | cons request rest ih =>
    obtain ⟨hreply, hafter⟩ := h.serve hb request
      (Nat.lt_of_le_of_lt (size_le_serveAll rest _) hlt)
    obtain ⟨hevents, hlast⟩ := ih hafter (hb.step request) hlt
    refine ⟨?_, hlast⟩
    simp only [LinearMemory.serveAll, Memory.serveAll, hreply, hevents]

/-! ### What can be relied on -/

/-- What the fields are at a point of a history, and what can be relied on there. -/
structure Orderly (events : List Event) (l : LinearMemory) : Prop where
  /-- The live allocations are those of the blocks that were handed out and not given back, each
  with its number among all that were handed out. -/
  live : l.live = (Block.allocated 0 (handedOut events)).filter (·.1 ∉ released events)
  /-- The freed addresses are those that were given back. -/
  freed : ∀ p, p ∈ l.freed ↔ p ∈ released events
  /-- The next number is that of the next block. -/
  nextSeq : l.nextSeq = (handedOut events).length
  /-- Live blocks do not overlap. -/
  apart : l.liveAllocations.Pairwise fun b c => b.1 + b.2 ≤ c.1
  /-- They lie inside the memory, are not empty, and none is at address 0. -/
  inside : ∀ b ∈ l.liveAllocations, 0 < b.1 ∧ 0 < b.2 ∧ b.1 + b.2 ≤ l.size
  /-- A new block is behind all that were ever handed out, and inside the grown memory. -/
  fresh : ∀ size align, size ≠ 0 → (l.alloc size align).2.size < UInt32.size →
    0 < (l.alloc size align).1 ∧
      (∀ b ∈ handedOut events, b.start + b.size ≤ (l.alloc size align).1) ∧
      (l.alloc size align).1 + size = (l.alloc size align).2.size
  /-- It is aligned as was asked. -/
  aligned : ∀ size k : Nat, size ≠ 0 → (l.alloc size (2 ^ k)).2.size < UInt32.size →
    2 ^ k ∣ (l.alloc size (2 ^ k)).1
  /-- What was handed out is counted, and what of it was given back. -/
  counted : l.stats.allocations = (handedOut events).length ∧
    l.stats.frees = (handedOut events).countP (·.start ∈ released events) ∧
    l.stats.allocations = l.stats.frees + l.liveAllocations.length
  /-- And so are the bytes. -/
  countedBytes : l.stats.bytesAllocated = ((handedOut events).map (·.size)).sum ∧
    l.stats.bytesAllocated = l.stats.bytesFreed + (l.liveAllocations.map (·.2)).sum ∧
    l.stats.liveBytes = (l.liveAllocations.map (·.2)).sum
  /-- No counter outgrows the memory. -/
  bounded : l.stats.allocations ≤ l.size ∧ l.stats.bytesAllocated ≤ l.size
  /-- A free is a double free exactly for addresses that were handed out and given back. -/
  doubleFree : ∀ p size align q, size ≠ 0 → (l.free p size align = .error (.doubleFree q) ↔
    q = p ∧ p ∈ Block.starts (handedOut events) ∧ p ∈ released events)
  /-- The address is unknown exactly if it was never handed out. -/
  unknown : ∀ p size align q, size ≠ 0 → (l.free p size align = .error (.unknownAllocation q) ↔
    q = p ∧ p ∉ Block.starts (handedOut events))
  /-- A request that fails changes nothing. -/
  refused : ∀ (request : Request) e l', l.serve request = (.error e, l') → l' = l
  /-- If a mark is taken now, then releasing since that mark, whatever was asked in between, frees
  exactly the live blocks that were handed out in between. -/
  sinceMark : ∀ later, (serveAll later l).2.size < UInt32.size →
    let newer := Block.starts (handedOut (serveAll later l).1)
    let l' := (serveAll later l).2
    (l'.releaseSince l.mark).1 = l'.live.countP (·.1 ∈ newer) ∧
      (l'.releaseSince l.mark).2.live = l'.live.filter (·.1 ∉ newer)

theorem Tracks.live_eq (h : l.Tracks m) (hb : Booked events m) :
    l.live = (Block.allocated 0 (handedOut events)).filter (·.1 ∉ released events) := by
  rw [h.live, hb.ledger, List.reverse_reverse, Block.allocated_map_releaseIn]
  exact fun b hmem => (hb.packed.of_mem hmem).2.2.live

theorem Tracks.mem_freed_iff (h : l.Tracks m) (hb : Booked events m) (p : Nat) :
    p ∈ l.freed ↔ p ∈ released events := by
  rw [h.freed, hb.ledger]
  constructor
  · rintro ⟨b, hmem, hdead, rfl⟩
    obtain ⟨c, hc, rfl⟩ := List.mem_map.1 (List.mem_reverse.1 hmem)
    rw [Block.start_releaseIn]
    by_contra hkept
    rw [Block.releaseIn_of_not_mem hkept, (hb.packed.of_mem hc).2.2.live] at hdead
    cases hdead
  · intro hp
    obtain ⟨c, hc, rfl⟩ := List.mem_map.1 (hb.known p hp)
    exact ⟨_, List.mem_reverse.2 (List.mem_map_of_mem hc), Block.dead_releaseIn (.inr hp),
      Block.start_releaseIn _ c⟩

theorem Tracks.nextSeq_eq (h : l.Tracks m) (hb : Booked events m) :
    l.nextSeq = (handedOut events).length := by
  rw [h.nextSeq, Memory.mark, hb.ledger, List.length_reverse, List.length_map]

theorem Tracks.liveAllocations_eq (h : l.Tracks m) :
    l.liveAllocations = m.liveBlocks.map fun b => (b.start, b.size) := by
  rw [liveAllocations, h.live, liveBlocks, ← List.filter_reverse]
  exact Block.map_allocated (fun _ _ => rfl) 0 _

theorem Tracks.map_size_liveAllocations (h : l.Tracks m) :
    l.liveAllocations.map (·.2) = m.liveBlocks.map (·.size) := by
  rw [h.liveAllocations_eq, List.map_map]
  rfl

/-- A new block is where the ledger has it. -/
theorem Tracks.address_eq (h : l.Tracks m) (hb : Booked events m)
    (hlt : (l.alloc size align).2.size < UInt32.size) :
    (l.alloc size align).1 = (m.alloc size align).1 ∧
      (l.alloc size align).2.size = (m.alloc size align).2.size := by
  obtain ⟨haddress, hafter⟩ := h.alloc hb.starts_lt hlt
  exact ⟨haddress, hafter.size_eq⟩

theorem Follows.error_iff {change : Except AbiError LinearMemory}
    {change' : Except AbiError Memory} (hf : Follows change change') (e : AbiError) :
    change = .error e ↔ change' = .error e := by
  cases hf <;> simp

theorem serve_error {request : Request} {e : AbiError} (h : l.serve request = (.error e, l')) :
    l' = l := by
  cases request with
  | alloc | mark | releaseSince => cases h
  | read => exact (congrArg Prod.snd h).symm
  | free p size align =>
    simp only [serve] at h
    cases hf : l.free p size align <;> rw [hf] at h <;> cases h
    rfl
  | write p data =>
    simp only [serve] at h
    cases hw : l.write p data <;> rw [hw] at h <;> cases h
    rfl

theorem live_foldl_release (doomed : List (Nat × Allocation)) (l : LinearMemory) :
    (doomed.foldl (fun l (p, a) => l.release p a) l).live =
      l.live.filter (·.1 ∉ doomed.map (·.1)) := by
  induction doomed generalizing l with
  | nil => simp
  | cons e rest ih =>
    have hrest := ih (l.release e.1 e.2)
    rw [LinearMemory.release, List.filter_filter] at hrest
    refine hrest.trans (List.filter_congr fun e' _ => ?_)
    by_cases hp : e'.1 = e.1 <;> simp [hp]

/-- Releasing what has a number from some point on is releasing what was handed out since. -/
theorem Tracks.releaseSince_eq {before after : List Event} (h : l.Tracks m)
    (hb : Booked (before ++ after) m) :
    (l.releaseSince (handedOut before).length).1 =
        l.live.countP (·.1 ∈ Block.starts (handedOut after)) ∧
      (l.releaseSince (handedOut before).length).2.live =
        l.live.filter (·.1 ∉ Block.starts (handedOut after)) := by
  have hout : handedOut (before ++ after) = handedOut before ++ handedOut after := handedOut_append
  -- The numbers single out the same allocations as the addresses do.
  have hdoomed : l.live.filter ((handedOut before).length ≤ ·.2.seq) =
      l.live.filter (·.1 ∈ Block.starts (handedOut after)) := by
    refine List.filter_congr fun e he => decide_eq_decide.2 ?_
    rw [h.live_eq hb, hout] at he
    exact Block.le_seq_iff (hout ▸ hb.packed.nodup) (List.mem_filter.1 he).1
  rw [LinearMemory.releaseSince, hdoomed, List.countP_eq_length_filter, live_foldl_release]
  refine ⟨rfl, List.filter_congr fun e he => decide_eq_decide.2 (not_congr ?_)⟩
  constructor
  · intro hmem
    obtain ⟨e', he', heq⟩ := List.mem_map.1 hmem
    exact heq ▸ of_decide_eq_true (List.mem_filter.1 he').2
  · exact fun hmem => List.mem_map_of_mem (List.mem_filter.2 ⟨he, decide_eq_true hmem⟩)

theorem Tracks.orderly (h : l.Tracks m) (hb : Booked events m) : Orderly events l where
  live := h.live_eq hb
  freed := h.mem_freed_iff hb
  nextSeq := h.nextSeq_eq hb
  apart := by
    rw [h.liveAllocations_eq, hb.liveBlocks_eq, List.pairwise_map]
    exact hb.packed.pairwise.filter _
  inside := by
    rw [h.liveAllocations_eq, hb.liveBlocks_eq, List.forall_mem_map, h.size_eq]
    intro b hmem
    obtain ⟨hlo, hhi, hheld⟩ := hb.packed.of_mem (List.mem_filter.1 hmem).1
    have := hheld.size_pos
    omega
  fresh size align hs hlt := by
    obtain ⟨haddress, hsize⟩ := h.address_eq hb hlt
    obtain ⟨hle, hend, -⟩ := alloc_eq m hs align
    rw [haddress, hsize]
    refine ⟨by omega, fun b hmem => ?_, hend.symm⟩
    have := (hb.packed.of_mem hmem).2.1
    omega
  aligned size k hs hlt := by
    rw [(h.address_eq hb hlt).1]
    exact (alloc_eq m hs (2 ^ k)).2.2.2 k rfl
  counted := by
    rw [h.stats, h.liveAllocations_eq, List.length_map]
    exact ⟨by simp [Memory.stats, allocations, hb.ledger], hb.frees_eq, allocations_eq m⟩
  countedBytes := by
    rw [h.stats, h.map_size_liveAllocations]
    exact ⟨hb.bytesAllocated_eq, bytesAllocated_eq m,
      by rw [MemoryStats.liveBytes, Memory.stats, bytesAllocated_eq, Nat.add_sub_cancel_left]⟩
  bounded := by
    have hcount := hb.packed.length_le
    have hbytes := hb.packed.sum_le
    rw [← hb.bytesAllocated_eq] at hbytes
    have hlength : m.allocations = (handedOut events).length := by simp [allocations, hb.ledger]
    rw [h.stats, h.size_eq]
    change m.allocations ≤ m.size ∧ m.bytesAllocated ≤ m.size
    omega
  doubleFree p size align q hs :=
    ((h.free hb.nodup_ledger p size align).error_iff _).trans (hb.doubleFree_iff hs align q)
  unknown p size align q hs :=
    ((h.free hb.nodup_ledger p size align).error_iff _).trans (hb.unknown_iff hs align q)
  refused _ _ _ := serve_error
  sinceMark later hlt := by
    obtain ⟨hevents, hlast⟩ := h.serveAll hb later hlt
    have hb' := hb.run later
    rw [← hevents] at hb'
    simp only [LinearMemory.mark, h.nextSeq_eq hb]
    exact hlast.releaseSince_eq hb'

/-- Whatever a memory that starts without allocations is asked, everything that can be relied on
holds afterwards, as long as its addresses fit in 32 bits. -/
theorem orderly_serveAll (data : List UInt8) (requests : List Request)
    (hlt : (serveAll requests (ofBytes data)).2.size < UInt32.size) :
    Orderly (serveAll requests (ofBytes data)).1 (serveAll requests (ofBytes data)).2 := by
  have hbooked : Booked [] ⟨data, []⟩ := booked_nil rfl
  obtain ⟨hevents, hlast⟩ := (tracks_ofBytes data).serveAll hbooked requests hlt
  rw [hevents]
  exact hlast.orderly (hbooked.run requests)

/-- A run with an empty block, whose address is that of a block, and a mark. -/
def danglingRun : List Request :=
  [.alloc 4 4, .alloc 0 4, .mark, .alloc 2 1, .free 4 0 4, .free 4 4 4, .releaseSince 1]

theorem orderly_danglingRun :
    (serveAll danglingRun (ofBytes [])).2.size < UInt32.size ∧
      Orderly (serveAll danglingRun (ofBytes [])).1 (serveAll danglingRun (ofBytes [])).2 :=
  ⟨by decide, orderly_serveAll [] danglingRun (by decide)⟩

/-- A request of size zero answers an address that a block has, and the block is still freed only
once. -/
example : (serveAll [.alloc 4 4, .alloc 0 4, .free 4 0 4, .free 4 4 4, .free 4 4 4] {}).1.map
    (fun e => e.reply.toOption) =
      [some (.address 4), some (.address 4), some .done, some .done, none] := by
  decide

end LinearMemory

end ComponentAbi
