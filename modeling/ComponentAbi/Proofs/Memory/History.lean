import ComponentAbi.Proofs.Memory.Settled

/-!
# Histories of a memory

A memory is asked for things one after the other, and what it was asked and what it answered is its
history. The history alone says which blocks were handed out (`Memory.handedOut`) and which
addresses were given back since (`Memory.released`). `Memory.Booked` says that the ledger holds
exactly that, with the blocks in a row behind one another.

* `Memory.Booked.step`, `Memory.Booked.run` : every request keeps the ledger in step with the
  history, and so does a whole run;
* `Memory.Booked.liveBlocks_eq` : the live blocks are those handed out and not given back;
* `Memory.Booked.free_eq`, `Memory.Booked.doubleFree_iff`, `Memory.Booked.unknown_iff` : what the
  answer to a free says of the history.
-/

namespace ComponentAbi

namespace Block

variable {bs : List Block} {ps ps' : List Nat} {b : Block}

theorem releaseIn_of_not_mem (h : b.start ∉ ps) : releaseIn ps b = b :=
  if_neg h

theorem releaseIn_releaseIn : releaseIn ps' (releaseIn ps b) = releaseIn (ps ++ ps') b := by
  by_cases h : b.start ∈ ps <;> by_cases h' : b.start ∈ ps' <;> simp [releaseIn, h, h', release]

theorem release_releaseIn : (releaseIn ps b).release = b.release := by
  by_cases h : b.start ∈ ps <;> simp [releaseIn, h, release]

theorem live_releaseIn (ps : List Nat) (h : b.live = true) :
    (releaseIn ps b).live = true ↔ b.start ∉ ps := by
  by_cases hp : b.start ∈ ps <;> simp [releaseIn, hp, release, h]

/-- Of a row of blocks, some after the first `k` are freed. -/
theorem map_releaseIn_append (hn : (starts bs).Nodup) {k : Nat} (hs : ps' ⊆ starts (bs.drop k)) :
    bs.map (releaseIn (ps ++ ps')) =
      (bs.take k).map (releaseIn ps) ++ (bs.drop k).map (releaseIn (ps ++ ps')) := by
  have hsplit := nodup_starts_append.1 ((List.take_append_drop k bs).symm ▸ hn)
  conv_lhs => rw [← List.take_append_drop k bs, List.map_append]
  congr 1
  refine List.map_congr_left fun b hb => ?_
  have hout : b.start ∉ ps' := fun hmem => hsplit.2.2 _ (List.mem_map_of_mem hb) (hs hmem)
  rw [← releaseIn_releaseIn, releaseIn_of_not_mem (by rwa [start_releaseIn])]

/-- Of a row of blocks, those after the first `k` are freed. -/
theorem map_releaseIn_drop (hn : (starts bs).Nodup) (k : Nat) :
    bs.map (releaseIn (ps ++ starts (bs.drop k))) =
      (bs.take k).map (releaseIn ps) ++ (bs.drop k).map release := by
  rw [map_releaseIn_append hn (List.Subset.refl _)]
  congr 1
  refine List.map_congr_left fun b hb => if_pos ?_
  exact List.mem_append_right _ (List.mem_map_of_mem hb)

theorem releaseAll_eq_map (hn : (starts bs).Nodup) (hs : ∀ p ∈ ps, p ∈ starts bs) :
    releaseAll ps bs = bs.map (releaseIn ps) := by
  simpa using @releaseAll_append bs [] ps hn hs

end Block

namespace Memory

/-! ### Requests and their history -/

/-- A request and what came of it. -/
structure Event where
  /-- What was asked. -/
  request : Request
  /-- What was answered. -/
  reply : Except AbiError Reply

/-- What happens when a memory is asked for some things in order, and the memory afterwards. -/
def serveAll : List Request → Memory → List Event × Memory
  | [], m => ([], m)
  | request :: rest, m =>
    let (reply, m') := request.serve.runOn m
    let (events, last) := serveAll rest m'
    (⟨request, reply⟩ :: events, last)

/-- The block that was handed out, if the request was not for an empty one. -/
def Event.handedOut : Event → List Block
  | ⟨.alloc size align, .ok (.address start)⟩ => Block.ofArea start size (max align 1)
  | _ => []

/-- The addresses that were given back, where `older` are the blocks handed out before. -/
def Event.released (older : List Block) : Event → List Nat
  | ⟨.free pointer size _, .ok _⟩ => if size = 0 then [] else [pointer]
  | ⟨.releaseSince point, .ok _⟩ => Block.starts (older.drop point)
  | _ => []

/-- The blocks that were handed out, the oldest first. -/
def handedOut (events : List Event) : List Block :=
  events.flatMap Event.handedOut

/-- The addresses that were given back in some events that come after `older` was handed out. -/
def releasedAfter (older : List Block) : List Event → List Nat
  | [] => []
  | e :: rest => e.released older ++ releasedAfter (older ++ e.handedOut) rest

/-- The addresses that were given back. -/
def released (events : List Event) : List Nat :=
  releasedAfter [] events

variable {m m₀ : Memory} {events before after : List Event} {e : Event} {size align p : Nat}
  {bs : List Block} {ps ps' : List Nat} {b : Block}

@[simp] theorem handedOut_append :
    handedOut (before ++ after) = handedOut before ++ handedOut after :=
  List.flatMap_append

@[simp] theorem handedOut_singleton : handedOut [e] = e.handedOut := by
  simp [handedOut]

theorem releasedAfter_append (older : List Block) :
    releasedAfter older (before ++ after) =
      releasedAfter older before ++ releasedAfter (older ++ handedOut before) after := by
  induction before generalizing older with
  | nil => simp [releasedAfter, handedOut]
  | cons e before ih =>
    rw [List.cons_append, releasedAfter, releasedAfter, ih, List.append_assoc, List.append_assoc]
    rfl

@[simp] theorem released_concat :
    released (events ++ [e]) = released events ++ e.released (handedOut events) := by
  simp [released, releasedAfter_append, releasedAfter]

/-! ### Single steps -/

/-- Freeing looks at the newest block of the address. -/
theorem releaseAt_eq (ledger : List Block) :
    releaseAt p size align ledger =
      match ledger.find? (·.start == p) with
      | none => .error (.unknownAllocation p)
      | some b =>
        if b.live = false then .error (.doubleFree p)
        else if b.size ≠ size ∨ b.align ≠ align then
          .error (.allocationMismatch p size align b.size b.align)
        else .ok (Block.releaseAll [p] ledger) := by
  induction ledger with
  | nil => rfl
  | cons c older ih =>
    by_cases hc : c.start = p
    · cases hl : c.live <;> simp [releaseAt, hc, hl, Block.releaseAll]
    · have hne : (c.start == p) = false := by simpa using hc
      rw [releaseAt, if_pos hc, ih, List.find?_cons, hne]
      dsimp only
      cases older.find? (·.start == p) with
      | none => rfl
      | some b =>
        dsimp only
        split
        · rfl
        · split
          · rfl
          · simp [Except.map, Block.releaseAll, hc]

/-- A block that is not empty starts behind the end of the memory, and not at address 0. -/
theorem alloc_eq (m : Memory) (hs : size ≠ 0) (align : Nat) :
    max m.size 1 ≤ (m.alloc size align).1 ∧
      (m.alloc size align).2.size = (m.alloc size align).1 + size ∧
      (m.alloc size align).2.ledger =
        ⟨(m.alloc size align).1, size, max align 1, true⟩ :: m.ledger ∧
      ∀ k : Nat, align = 2 ^ k → align ∣ (m.alloc size align).1 := by
  have hle := le_alignUp (max m.size 1) (Nat.le_max_right align 1)
  have hlen : m.bytes.length = m.size := rfl
  simp only [alloc, hs, ↓reduceIte]
  refine ⟨hle, ?_, trivial, ?_⟩
  · simp only [Memory.size, List.length_append, List.length_replicate]
    simp only [Memory.size] at hle hlen
    omega
  · rintro k rfl
    rw [Nat.max_eq_left (Nat.one_le_two_pow (n := k))]
    exact two_pow_dvd_alignUp _ k

/-! ### The ledger and the history -/

/-- The ledger has the blocks that were handed out, one behind the other from address 1 on, and
those whose addresses were given back are freed. -/
structure Booked (events : List Event) (m : Memory) : Prop where
  /-- The ledger has the newest block first. -/
  ledger : m.ledger = ((handedOut events).map (Block.releaseIn (released events))).reverse
  /-- The blocks are in the memory, in the order in which they were handed out. -/
  packed : Packed 1 (max m.size 1) (handedOut events)
  /-- Only blocks that were handed out are given back. -/
  known : ∀ p ∈ released events, p ∈ Block.starts (handedOut events)

theorem booked_nil (h : m.ledger = []) : Booked [] m :=
  ⟨h, Nat.le_max_right _ _, fun _ hp => absurd hp List.not_mem_nil⟩

/-- An event that hands out nothing and gives nothing back. -/
theorem Booked.idle {m' : Memory} (h : Booked events m) (hl : m'.ledger = m.ledger)
    (hs : m'.size = m.size) (hout : e.handedOut = [])
    (hback : e.released (handedOut events) = []) : Booked (events ++ [e]) m' := by
  refine ⟨?_, ?_, ?_⟩ <;> simp only [handedOut_append, handedOut_singleton, released_concat, hout,
    hback, List.append_nil, hl, hs]
  · exact h.ledger
  · exact h.packed
  · exact h.known

theorem Booked.nodup (h : Booked events m) :
    (Block.starts ((handedOut events).map (Block.releaseIn (released events)))).Nodup := by
  rw [Block.starts_map_releaseIn]
  exact h.packed.nodup

theorem Booked.start_lt (h : Booked events m) (hb : b ∈ handedOut events) :
    b.start < max m.size 1 := by
  obtain ⟨-, hle, hheld⟩ := h.packed.of_mem hb
  have := hheld.size_pos
  omega

theorem Booked.alloc (h : Booked events m) (size align : Nat) :
    Booked (events ++ [⟨.alloc size align, .ok (.address (m.alloc size align).1)⟩])
      (m.alloc size align).2 := by
  by_cases hs : size = 0
  · subst hs
    exact h.idle rfl rfl rfl rfl
  · obtain ⟨hle, hsize, hledger, -⟩ := alloc_eq m hs align
    have hout : (Event.mk (.alloc size align) (.ok (.address (m.alloc size align).1))).handedOut =
        [⟨(m.alloc size align).1, size, max align 1, true⟩] :=
      Block.ofArea_of_pos (Nat.pos_of_ne_zero hs)
    have hnew : (m.alloc size align).1 ∉ released events := by
      intro hp
      obtain ⟨b, hb, he⟩ := List.mem_map.1 (h.known _ hp)
      have := h.start_lt hb
      omega
    have hback : (Event.mk (.alloc size align) (.ok (.address (m.alloc size align).1))).released
        (handedOut events) = [] := rfl
    refine ⟨?_, ?_, fun p hp => ?_⟩
    · simp only [hledger, handedOut_append, handedOut_singleton, hout, released_concat, hback,
        List.append_nil, List.map_append, List.map_cons, List.map_nil, List.reverse_append,
        List.reverse_singleton, List.singleton_append, h.ledger,
        Block.releaseIn_of_not_mem (b := ⟨_, size, max align 1, true⟩) hnew]
    · rw [handedOut_append, handedOut_singleton, hout]
      refine h.packed.append ⟨hle, ⟨Nat.pos_of_ne_zero hs, Nat.le_max_right _ _, rfl⟩, ?_⟩
      change (m.alloc size align).1 + size ≤ max (m.alloc size align).2.size 1
      omega
    · rw [released_concat, hback, List.append_nil] at hp
      rw [handedOut_append, Block.mem_starts_append]
      exact .inl (h.known p hp)

theorem find?_reverse_of_nodup (hn : (Block.starts bs).Nodup) :
    bs.reverse.find? (·.start == p) = bs.find? (·.start == p) := by
  cases hf : bs.find? (·.start == p) with
  | none =>
    rw [List.find?_eq_none] at hf ⊢
    exact fun b hb => hf b (List.mem_reverse.1 hb)
  | some b =>
    have hb := List.mem_of_find?_eq_some hf
    obtain rfl : b.start = p := by simpa using List.find?_some hf
    exact Block.find?_of_mem_of_nodup (Block.nodup_starts_reverse.2 hn) (List.mem_reverse.2 hb)

/-- The answer to a free says whether the address was handed out, and whether it was given back. -/
theorem Booked.free_eq (h : Booked events m) (hs : size ≠ 0) (p align : Nat) :
    m.free p size align =
      match (handedOut events).find? (·.start == p) with
      | none => .error (.unknownAllocation p)
      | some b =>
        if p ∈ released events then .error (.doubleFree p)
        else if b.size ≠ size ∨ b.align ≠ max align 1 then
          .error (.allocationMismatch p size (max align 1) b.size b.align)
        else .ok (m.releaseAll [p]) := by
  have hfind : m.ledger.find? (·.start == p) =
      ((handedOut events).find? (·.start == p)).map (Block.releaseIn (released events)) := by
    rw [h.ledger, find?_reverse_of_nodup h.nodup, List.find?_map]
    congr 2
    funext b
    simp
  rw [Memory.free, if_neg hs, releaseAt_eq, hfind]
  cases hf : (handedOut events).find? (·.start == p) with
  | none => rfl
  | some b =>
    obtain rfl : b.start = p := by simpa using List.find?_some hf
    have hheld := (h.packed.of_mem (List.mem_of_find?_eq_some hf)).2.2
    by_cases hp : b.start ∈ released events
    · have hd : (Block.releaseIn (released events) b).live = false := Block.dead_releaseIn (.inr hp)
      simp only [Option.map_some, hd, hp, ↓reduceIte, Except.map]
    · simp only [Option.map_some, Block.releaseIn_of_not_mem hp, hheld.live, hp, ↓reduceIte,
        Bool.true_eq_false]
      split <;> rfl

/-- What was handed out and is not given back yet is given back. -/
theorem Booked.giveBack (h : Booked events m) (hp : p ∈ Block.starts (handedOut events))
    (hout : e.handedOut = []) (hback : e.released (handedOut events) = [p]) :
    Booked (events ++ [e]) (m.releaseAll [p]) := by
  refine ⟨?_, ?_, ?_⟩ <;> simp only [handedOut_append, handedOut_singleton, released_concat, hout,
    hback, List.append_nil, size_releaseAll]
  · have hn := Block.nodup_starts_reverse.2 h.nodup
    have hstart : ∀ q ∈ [p], q ∈ Block.starts ((handedOut events).map
        (Block.releaseIn (released events))).reverse := by
      simpa using hp
    rw [Memory.releaseAll, h.ledger, Block.releaseAll_eq_map hn hstart, List.map_reverse,
      List.map_map]
    simp only [Function.comp_def, Block.releaseIn_releaseIn]
  · exact h.packed
  · intro q hq
    refine (List.mem_append.1 hq).elim (h.known q) fun hq => ?_
    rwa [List.mem_singleton.1 hq]

/-- A free that succeeds is of a block that was handed out. -/
theorem Booked.of_free_eq_ok {m' : Memory} (h : Booked events m) (hs : size ≠ 0)
    (hf : m.free p size align = .ok m') :
    p ∈ Block.starts (handedOut events) ∧ m' = m.releaseAll [p] := by
  rw [h.free_eq hs] at hf
  cases hb : (handedOut events).find? (·.start == p) with
  | none => rw [hb] at hf; cases hf
  | some b =>
    obtain rfl : b.start = p := by simpa using List.find?_some hb
    refine ⟨List.mem_map_of_mem (List.mem_of_find?_eq_some hb), ?_⟩
    simp only [hb] at hf
    split at hf
    · cases hf
    · split at hf
      · cases hf
      · exact (Except.ok.inj hf).symm

theorem Booked.free {m' : Memory} (h : Booked events m) (hf : m.free p size align = .ok m')
    (reply : Reply) : Booked (events ++ [⟨.free p size align, .ok reply⟩]) m' := by
  by_cases hs : size = 0
  · rw [Memory.free, if_pos hs] at hf
    cases hf
    exact h.idle rfl rfl rfl (if_pos hs)
  · obtain ⟨hp, rfl⟩ := h.of_free_eq_ok hs hf
    exact h.giveBack hp rfl (if_neg hs)

/-- With the oldest block first, those after the first `k` are freed. -/
theorem releaseSince_eq (h : m.ledger = bs.reverse) (k : Nat) :
    m.releaseSince k = ((bs.drop k).countP (·.live),
      { m with ledger := (bs.take k ++ (bs.drop k).map Block.release).reverse }) := by
  have hnewer : bs.length - (bs.length - k) = min k bs.length := by omega
  simp only [Memory.releaseSince, h, List.length_reverse, List.take_reverse, List.drop_reverse,
    hnewer, List.countP_reverse, List.map_reverse, ← List.reverse_append]
  by_cases hk : k ≤ bs.length
  · rw [Nat.min_eq_left hk]
  · have hk : bs.length ≤ k := by omega
    simp [Nat.min_eq_right hk, List.take_of_length_le hk, List.drop_of_length_le hk]

theorem Booked.releaseSince (h : Booked events m) (k : Nat) (reply : Reply) :
    Booked (events ++ [⟨.releaseSince k, .ok reply⟩]) (m.releaseSince k).2 := by
  have hout : (Event.mk (.releaseSince k) (.ok reply)).handedOut = [] := rfl
  have hback : (Event.mk (.releaseSince k) (.ok reply)).released (handedOut events) =
      Block.starts ((handedOut events).drop k) := rfl
  refine ⟨?_, ?_, fun p hp => ?_⟩
  · rw [releaseSince_eq h.ledger, handedOut_append, handedOut_singleton, hout, List.append_nil,
      released_concat, hback, Block.map_releaseIn_drop h.packed.nodup, ← List.map_take,
      ← List.map_drop, List.map_map]
    simp only [Function.comp_def, Block.release_releaseIn]
  · rw [handedOut_append, handedOut_singleton, hout, List.append_nil]
    exact h.packed
  · rw [released_concat, hback] at hp
    rw [handedOut_append, Block.mem_starts_append]
    refine .inl ((List.mem_append.1 hp).elim (h.known p) fun hp => ?_)
    obtain ⟨b, hb, rfl⟩ := List.mem_map.1 hp
    exact List.mem_map_of_mem (List.mem_of_mem_drop hb)

/-! ### Runs -/

theorem runOn_serve_free :
    (Request.free p size align).serve.runOn m =
      match m.free p size align with
      | .ok m' => (.ok .done, m')
      | .error e => (.error e, m) := by
  rw [Request.serve, MemoryM.runOn_bind, MemoryM.runOn_free]
  cases m.free p size align <;> rfl

theorem runOn_serve_read {length : Nat} :
    (Request.read p length).serve.runOn m = ((m.read p length).map .bytes, m) := by
  rw [Request.serve, MemoryM.runOn_bind, MemoryM.runOn_reading]
  cases m.read p length <;> rfl

theorem runOn_serve_write {data : List UInt8} :
    (Request.write p data).serve.runOn m =
      match m.write p data with
      | .ok m' => (.ok .done, m')
      | .error e => (.error e, m) := by
  rw [Request.serve, MemoryM.runOn_bind, MemoryM.runOn_write]
  cases m.write p data <;> rfl

/-- Whatever a memory is asked, its ledger stays in step with its history. -/
theorem Booked.step (h : Booked events m) (request : Request) :
    Booked (events ++ [⟨request, (request.serve.runOn m).1⟩]) (request.serve.runOn m).2 := by
  cases request with
  | alloc size align => exact h.alloc size align
  | free p size align =>
    rw [runOn_serve_free]
    cases hf : m.free p size align with
    | ok m' => exact h.free hf _
    | error e => exact h.idle rfl rfl rfl rfl
  | mark => exact h.idle rfl rfl rfl rfl
  | releaseSince k => exact h.releaseSince k _
  | read p length =>
    rw [runOn_serve_read]
    exact h.idle rfl rfl rfl rfl
  | write p data =>
    rw [runOn_serve_write]
    cases hw : m.write p data with
    | ok m' => exact h.idle (write_ledger hw).1 (write_ledger hw).2 rfl rfl
    | error e => exact h.idle rfl rfl rfl rfl

theorem Booked.run (h : Booked events m) (requests : List Request) :
    Booked (events ++ (serveAll requests m).1) (serveAll requests m).2 := by
  induction requests generalizing events m with
  | nil =>
    rw [serveAll, List.append_nil]
    exact h
  | cons request rest ih =>
    have := ih (h.step request)
    rwa [List.append_assoc] at this

/-! ### What the ledger says -/

/-- The live blocks are those that were handed out and not given back. -/
theorem Booked.liveBlocks_eq (h : Booked events m) :
    m.liveBlocks = (handedOut events).filter (·.start ∉ released events) := by
  rw [liveBlocks, h.ledger, List.filter_reverse, List.reverse_reverse, List.filter_map]
  have hlive : ∀ b ∈ handedOut events,
      ((·.live) ∘ Block.releaseIn (released events)) b = decide (b.start ∉ released events) := by
    intro b hb
    rw [Bool.eq_iff_iff, decide_eq_true_iff]
    exact Block.live_releaseIn _ (h.packed.of_mem hb).2.2.live
  rw [List.filter_congr hlive]
  conv_rhs => rw [← List.map_id ((handedOut events).filter _)]
  refine List.map_congr_left fun b hb => Block.releaseIn_of_not_mem ?_
  simpa using (List.mem_filter.1 hb).2

/-- Blocks in a row do not overlap. -/
theorem Packed.pairwise {lo hi : Nat} (h : Packed lo hi bs) :
    bs.Pairwise fun b c => b.start + b.size ≤ c.start := by
  induction bs generalizing lo with
  | nil => exact .nil
  | cons b rest ih =>
    obtain ⟨-, -, hrest⟩ := h
    exact .cons (fun c hc => (hrest.of_mem hc).1) (ih hrest)

/-- Every block is counted as freed or as live. -/
theorem allocations_eq (m : Memory) : m.allocations = m.frees + m.liveBlocks.length := by
  rw [allocations, frees, liveBlocks, List.length_reverse, ← List.countP_eq_length_filter,
    List.length_eq_countP_add_countP (·.live), Nat.add_comm]
  simp

theorem bytesAllocated_eq (m : Memory) :
    m.bytesAllocated = m.bytesFreed + (m.liveBlocks.map (·.size)).sum := by
  rw [bytesAllocated, bytesFreed, liveBlocks, List.map_reverse, List.sum_reverse]
  induction m.ledger with
  | nil => rfl
  | cons b older ih =>
    cases hb : b.live <;> simp [hb, ih] <;> omega

theorem Booked.frees_eq (h : Booked events m) :
    m.frees = (handedOut events).countP (·.start ∈ released events) := by
  rw [frees, h.ledger, List.countP_reverse, List.countP_map]
  refine List.countP_congr fun b hb => ?_
  have := Block.live_releaseIn (released events) (h.packed.of_mem hb).2.2.live
  cases hl : (Block.releaseIn (released events) b).live <;> simp_all

theorem Booked.bytesAllocated_eq (h : Booked events m) :
    m.bytesAllocated = ((handedOut events).map (·.size)).sum := by
  rw [bytesAllocated, h.ledger, List.map_reverse, List.sum_reverse, List.map_map]
  congr 1
  refine List.map_congr_left fun b _ => ?_
  by_cases hp : b.start ∈ released events <;> simp [Block.releaseIn, hp, Block.release]

theorem find?_start_eq_none : bs.find? (·.start == p) = none ↔ p ∉ Block.starts bs := by
  simp [Block.starts, List.find?_eq_none]

theorem Booked.doubleFree_iff (h : Booked events m) (hs : size ≠ 0) (align q : Nat) :
    m.free p size align = .error (.doubleFree q) ↔
      q = p ∧ p ∈ Block.starts (handedOut events) ∧ p ∈ released events := by
  rw [h.free_eq hs]
  cases hf : (handedOut events).find? (·.start == p) with
  | none => simp [find?_start_eq_none.1 hf]
  | some b =>
    have hmem : p ∈ Block.starts (handedOut events) := by
      rw [← not_not (a := p ∈ _), ← find?_start_eq_none, hf]
      exact Option.some_ne_none b
    by_cases hp : p ∈ released events
    · simp [hp, hmem, eq_comm]
    · simp only [hp, ↓reduceIte, and_false, iff_false]
      split <;> simp

theorem Booked.unknown_iff (h : Booked events m) (hs : size ≠ 0) (align q : Nat) :
    m.free p size align = .error (.unknownAllocation q) ↔
      q = p ∧ p ∉ Block.starts (handedOut events) := by
  rw [h.free_eq hs]
  cases hf : (handedOut events).find? (·.start == p) with
  | none => simp [find?_start_eq_none.1 hf, eq_comm]
  | some b =>
    have hmem : p ∈ Block.starts (handedOut events) := by
      rw [← not_not (a := p ∈ _), ← find?_start_eq_none, hf]
      exact Option.some_ne_none b
    simp only [hmem, not_true_eq_false, and_false, iff_false]
    split
    · simp
    · split <;> simp

end Memory

end ComponentAbi
