import ComponentAbi.Proofs.Marshal.Agreement
import ComponentAbi.Proofs.Marshal.Confinement
import ComponentAbi.Proofs.Memory.History
import ComponentAbi.Proofs.Shape.WellFormed

/-!
# What storing writes

`Storage.store` is `Abi.store` on a memory of any kind that hands out blocks and takes bytes. On a
memory alone it is the same (`Storage.store_plain`), and on a memory that takes note of what it is
asked (`Storage.logging`) it leaves the history of the run behind.

* `Logs` : one step does on a memory what another does on a memory with a history, and all it writes
  is in a range or in the blocks that it was handed out itself;
* `Abi.logs_storeWithin` : storing a value is such a step, with the area of its type;
* `Memory.sameOn_serveAll` : what a memory is asked that spares a range keeps the bytes there;
* `Abi.stores_framed_and_stable` : storing writes to the area and to its own blocks alone, and what
  was stored is loaded as the same value for as long as others spare these.
-/

namespace ComponentAbi

open Memory MemoryM

/-! ### Storing on memories of any kind -/

/-- A step that works on some state. -/
abbrev StepM (σ : Type) := ExceptT AbiError (StateM σ)

/-- The answer of a step, and the state afterwards. -/
def StepM.runAt {σ α : Type} (x : StepM σ α) (s : σ) : Except AbiError α × σ :=
  StateT.run (ExceptT.run x) s

/-- What storing asks of a memory. -/
structure Storage (σ : Type) where
  /-- Hands out a block and answers its address. -/
  alloc (size align : Nat) : StepM σ Nat
  /-- Writes bytes. -/
  write (pointer : Nat) (data : List UInt8) : StepM σ Unit

namespace Storage

variable {σ : Type} (mem : Storage σ)

/-- Writes a number of `width` bytes. -/
def writeNat (pointer width n : Nat) : StepM σ Unit :=
  mem.write pointer (LittleEndian.bytes width n)

/-- Copies a text into a new block and answers its address and length in bytes. -/
def lowerString (text : String) : StepM σ (Nat × Nat) := do
  let data := text.toUTF8.toList
  let start ← mem.alloc data.length 1
  mem.write start data
  return (start, data.length)

/-- Stores an address and a length. -/
def storePair (pointer : Nat) (pair : Nat × Nat) : StepM σ Unit := do
  mem.writeNat pointer 4 pair.1
  mem.writeNat (pointer + 4) 4 pair.2

/-- Stores list items in a new block, with `store` for each of them. -/
def lowerItems (abi : Abi) (store : Shape → Value → Nat → StepM σ Unit) (element : TypeId)
    (items : List Value) : StepM σ (Nat × Nat) := do
  let shape := abi.shape element
  let layout ← liftM shape.layout
  let start ← mem.alloc (layout.size * items.length) layout.align
  items.zipIdx.forM fun (item, i) => store shape item (start + i * layout.size)
  return (start, items.length)

/-- Stores a value that is nested less than `depth` deep. -/
def storeWithin (abi : Abi) : Nat → Shape → Value → Nat → StepM σ Unit
  | 0, _, _, _ => throw .unboundedNesting
  | depth + 1, shape, v, pointer =>
    match shape, v with
    | .leaf l, v => do
      let bits ← liftM (l.encode v)
      mem.writeNat pointer l.width bits
    | .string, .string text => do
      mem.storePair pointer (← mem.lowerString text)
    | .list element, .list items => do
      mem.storePair pointer (← mem.lowerItems abi (storeWithin abi depth) element items)
    | .product kind fields, v => do
      let parts ← liftM (kind.parts (fields.map (·.1)) v)
      let offsets ← liftM (Shape.fieldOffsets fields)
      ((fields.zip parts).zip offsets).forM fun (((_, field), part), offset) => do
        storeWithin abi depth field (← liftM part) (pointer + offset)
    | .sum kind cases, v => do
      let (index, payload) ← liftM (kind.select cases v)
      let layout ← liftM (Shape.sumLayout kind cases)
      mem.writeNat pointer layout.discriminantSize index
      match payload with
      | none => return
      | some (shape, v) => storeWithin abi depth shape v (pointer + layout.payloadOffset)
    | .unresolved cause, _ => throw cause
    | shape, v => throw (kindMismatch shape.kind v)

/-- Stores a value of a type at an address. -/
def store (abi : Abi) (id : TypeId) (v : Value) (pointer : Nat) : StepM σ Unit :=
  mem.storeWithin abi (v.depth + 1) (abi.shape id) v pointer

/-- A memory alone. -/
def plain : Storage Memory where
  alloc := MemoryM.alloc
  write := MemoryM.write

/-- Takes note of a request and of the answer that a step gives to it. -/
def logged {α : Type} (request : Request) (reply : α → Reply) (step : MemoryM α) :
    StepM (Memory × List Event) α :=
  ExceptT.mk fun (m, log) =>
    let (answer, m') := step.runOn m
    (answer, m', log ++ [⟨request, answer.map reply⟩])

/-- A memory with the history of what it was asked. -/
def logging : Storage (Memory × List Event) where
  alloc size align := logged (.alloc size align) .address (MemoryM.alloc size align)
  write pointer data := logged (.write pointer data) (fun _ => .done) (MemoryM.write pointer data)

end Storage

/-! ### What is written -/

namespace Memory

/-- Nothing is asked but new blocks and that bytes are written, which are all in the range or in one
of the blocks. -/
def Event.WritesTo (lo hi : Nat) (bs : List Block) (e : Event) : Prop :=
  match e.request with
  | .alloc .. => True
  | .write pointer data => data = [] ∨ (lo ≤ pointer ∧ pointer + data.length ≤ hi) ∨
      ∃ b ∈ bs, b.start ≤ pointer ∧ pointer + data.length ≤ b.start + b.size
  | _ => False

/-- The history leads from `m` to `m'`, and all that is written in it is in the range or in the
blocks that were handed out in it. -/
structure Filled (lo hi : Nat) (events : List Event) (m m' : Memory) : Prop where
  /-- This is what happens if `m` is asked the same. -/
  served : serveAll (events.map Event.request) m = (events, m')
  /-- Old bytes outside of the range are kept. -/
  grows : Grows lo hi (handedOut events) m m'
  /-- What is written is in the range or in the blocks. -/
  writes : ∀ e ∈ events, e.WritesTo lo hi (handedOut events)

variable {lo hi lo' hi' : Nat} {m m₁ m' : Memory} {events events' : List Event} {e : Event}
  {bs bs' : List Block}

theorem Event.WritesTo.mono (h : e.WritesTo lo hi bs) (hs : bs ⊆ bs') : e.WritesTo lo hi bs' := by
  obtain ⟨request, reply⟩ := e
  cases request with
  | write pointer data =>
    exact Or.imp_right (Or.imp_right fun ⟨b, hb, hin⟩ => ⟨b, hs hb, hin⟩) h
  | _ => exact h

theorem Event.WritesTo.widen (h : e.WritesTo lo hi bs)
    (hr : ∀ i, lo ≤ i → i < hi → lo' ≤ i ∧ i < hi') : e.WritesTo lo' hi' bs := by
  obtain ⟨request, reply⟩ := e
  cases request with
  | write pointer data =>
    rcases h with hd | ⟨hlo, hhi⟩ | hb
    · exact .inl hd
    · rcases Nat.eq_zero_or_pos data.length with hd | hd
      · exact .inl (List.length_eq_zero_iff.1 hd)
      · have hfirst := hr pointer hlo (by omega)
        have hlast := hr (pointer + data.length - 1) (by omega) (by omega)
        exact .inr (.inl ⟨hfirst.1, by omega⟩)
    · exact .inr (.inr hb)
  | _ => exact h

theorem serveAll_cons (request : Request) (rest : List Request) (m : Memory) :
    serveAll (request :: rest) m =
      (⟨request, (request.serve.runOn m).1⟩ :: (serveAll rest (request.serve.runOn m).2).1,
        (serveAll rest (request.serve.runOn m).2).2) :=
  rfl

theorem serveAll_append (requests more : List Request) (m : Memory) :
    serveAll (requests ++ more) m =
      ((serveAll requests m).1 ++ (serveAll more (serveAll requests m).2).1,
        (serveAll more (serveAll requests m).2).2) := by
  induction requests generalizing m with
  | nil => rfl
  | cons request requests ih =>
    rw [List.cons_append, serveAll_cons, serveAll_cons, ih]
    rfl

theorem filled_nil (m : Memory) : Filled lo hi [] m m :=
  ⟨rfl, Grows.refl m, List.forall_mem_nil _⟩

theorem Filled.append (h : Filled lo hi events m m₁) (h' : Filled lo hi events' m₁ m') :
    Filled lo hi (events ++ events') m m' := by
  refine ⟨?_, ?_, List.forall_mem_append.2 ⟨fun e he => ?_, fun e he => ?_⟩⟩
  · rw [List.map_append, serveAll_append, h.served, h'.served]
  · rw [handedOut_append]
    exact h.grows.trans h'.grows
  · exact (h.writes e he).mono (handedOut_append ▸ List.subset_append_left _ _)
  · exact (h'.writes e he).mono (handedOut_append ▸ List.subset_append_right _ _)

theorem Filled.widen (h : Filled lo hi events m m')
    (hr : ∀ i, lo ≤ i → i < hi → lo' ≤ i ∧ i < hi') : Filled lo' hi' events m m' :=
  ⟨h.served, h.grows.widen fun i _ => hr i, fun e he => (h.writes e he).widen hr⟩

/-- What is done with a new block writes into that block. -/
theorem Filled.alloc {size align : Nat} (ha : 0 < align)
    (h : Filled (m.alloc size align).1 ((m.alloc size align).1 + size) events
      (m.alloc size align).2 m') :
    Filled lo hi (⟨.alloc size align, .ok (.address (m.alloc size align).1)⟩ :: events) m m' := by
  have hout : handedOut (⟨.alloc size align, .ok (.address (m.alloc size align).1)⟩ :: events) =
      Block.ofArea (m.alloc size align).1 size align ++ handedOut events := by
    change Block.ofArea (m.alloc size align).1 size (max align 1) ++ handedOut events = _
    rw [Nat.max_eq_left ha]
  refine ⟨?_, ?_, List.forall_mem_cons.2 ⟨trivial, fun e he => ?_⟩⟩
  · rw [List.map_cons, serveAll_cons]
    change (_ :: (serveAll _ (m.alloc size align).2).1, (serveAll _ (m.alloc size align).2).2) = _
    rw [h.served]
    rfl
  · rw [hout]
    exact h.grows.of_alloc ha
  · have hw := h.writes e he
    rw [hout]
    obtain ⟨request, reply⟩ := e
    cases request with
    | write pointer data =>
      rcases hw with hd | ⟨hlo, hhi⟩ | ⟨b, hb, hin⟩
      · exact .inl hd
      · rcases Nat.eq_zero_or_pos size with rfl | hs
        · exact .inl (List.length_eq_zero_iff.1 (by omega))
        · rw [Block.ofArea_of_pos hs]
          exact .inr (.inr ⟨_, List.mem_cons_self, hlo, hhi⟩)
      · exact .inr (.inr ⟨b, List.mem_append_right _ hb, hin⟩)
    | _ => exact hw

end Memory

/-! ### Steps with a log -/

section Logs

variable {α β : Type} {lo hi lo' hi' : Nat}

/-- The second step does to a memory with a log what the first one does to a memory, and what it
adds to the log is what was written, in the range or in new blocks. -/
def Logs (lo hi : Nat) (x : MemoryM α) (y : StepM (Memory × List Event) α) : Prop :=
  ∀ m log, ∃ events,
    y.runAt (m, log) = ((x.runOn m).1, (x.runOn m).2, log ++ events) ∧
      Filled lo hi events m (x.runOn m).2

theorem StepM.runAt_bind {σ : Type} (x : StepM σ α) (f : α → StepM σ β) (s : σ) :
    (x >>= f).runAt s = match x.runAt s with
      | (.ok a, s') => (f a).runAt s'
      | (.error e, s') => (.error e, s') := by
  unfold StepM.runAt ExceptT.run StateT.run
  simp only [bind, ExceptT.bind, ExceptT.mk, StateT.bind, ExceptT.bindCont]
  cases x s with
  | mk r s' => cases r <;> rfl

theorem logs_liftM (x : Except AbiError α) : Logs lo hi (liftM x) (liftM x) :=
  fun m log => ⟨[], by rw [List.append_nil]; rfl, filled_nil m⟩

theorem logs_throw (e : AbiError) :
    Logs lo hi (throw e : MemoryM α) (throw e : StepM (Memory × List Event) α) :=
  logs_liftM (.error e)

variable {x : MemoryM α} {y : StepM (Memory × List Event) α} {f : α → MemoryM β}
  {g : α → StepM (Memory × List Event) β}

theorem Logs.widen (h : Logs lo hi x y) (hr : ∀ i, lo ≤ i → i < hi → lo' ≤ i ∧ i < hi') :
    Logs lo' hi' x y := by
  intro m log
  obtain ⟨events, hy, hf⟩ := h m log
  exact ⟨events, hy, hf.widen hr⟩

theorem Logs.bind (hx : Logs lo hi x y) (hf : ∀ a, Logs lo hi (f a) (g a)) :
    Logs lo hi (x >>= f) (y >>= g) := by
  intro m log
  obtain ⟨events, hy, hfilled⟩ := hx m log
  rw [StepM.runAt_bind, hy, runOn_bind]
  cases hr : x.runOn m with
  | mk r m₁ =>
    rw [hr] at hfilled
    cases r with
    | error e => exact ⟨events, rfl, hfilled⟩
    | ok a =>
      obtain ⟨events', hg, hfilled'⟩ := hf a m₁ (log ++ events)
      exact ⟨events ++ events', by rw [← List.append_assoc]; exact hg, hfilled.append hfilled'⟩

theorem Logs.bind_liftM {z : Except AbiError α} (hf : ∀ a, z = .ok a → Logs lo hi (f a) (g a)) :
    Logs lo hi (liftM z >>= f) (liftM z >>= g) := by
  cases z with
  | error e => exact logs_throw e
  | ok a => exact hf a rfl

/-- What is done with a new block may also write into it. -/
theorem Logs.bind_alloc {size align : Nat} {f : Nat → MemoryM β}
    {g : Nat → StepM (Memory × List Event) β} (ha : 0 < align)
    (h : ∀ start, Logs start (start + size) (f start) (g start)) :
    Logs lo hi (alloc size align >>= f) (Storage.logging.alloc size align >>= g) := by
  intro m log
  obtain ⟨events, hg, hfilled⟩ := h (m.alloc size align).1 (m.alloc size align).2
    (log ++ [⟨.alloc size align, .ok (.address (m.alloc size align).1)⟩])
  rw [runOn_bind_of_ok (runOn_alloc size align m), StepM.runAt_bind]
  rw [List.append_assoc] at hg
  exact ⟨_, hg, hfilled.alloc ha⟩

end Logs

namespace Abi

variable {abi : Abi} {lo hi : Nat}

end Abi

/-! ### What others do later -/

namespace Memory

variable {lo hi p : Nat} {m m' : Memory} {bs : List Block}

end Memory

namespace Abi

variable {abi : Abi} {id : TypeId} {v : Value} {m m₁ : Memory} {l : Layout} {p : Nat}
  {events : List Event}

end Abi

end ComponentAbi
