import ComponentAbi.AbiError
import ComponentAbi.Alignment
import ComponentAbi.LittleEndian

/-!
# Memory and its ledger

A growing byte memory whose blocks are handed out at its end and never reused, so that every pointer
is unique and a second free is always noticed. The ledger keeps every block ever handed out, live or
freed; all counters are read off it. `LinearMemory` is the same memory with its live blocks, freed
addresses and counters kept apart.

Requests of size zero hand out no block: they answer a pointer equal to the alignment, and freeing
nothing at any pointer succeeds.
-/

namespace ComponentAbi

/-- A block that was handed out. -/
structure Block where
  /-- First address. -/
  start : Nat
  /-- Number of bytes. -/
  size : Nat
  /-- The alignment that was asked for. -/
  align : Nat
  /-- The block was not freed yet. -/
  live : Bool := true
deriving DecidableEq, Repr, Inhabited

namespace Block

/-- The block after it was freed. -/
def release (b : Block) : Block :=
  { b with live := false }

end Block

/-- A byte memory with its allocation ledger. -/
structure Memory where
  /-- The contents; address `i` holds `bytes[i]`. -/
  bytes : List UInt8 := []
  /-- Every block ever handed out, the newest first. -/
  ledger : List Block := []
deriving DecidableEq, Repr, Inhabited

namespace Memory

/-- Number of bytes. -/
def size (m : Memory) : Nat :=
  m.bytes.length

/-! ### Blocks -/

/-- Hands out a zeroed block at the end. Address 0 is never handed out. -/
def alloc (m : Memory) (size align : Nat) : Nat × Memory :=
  let align := max align 1
  if size = 0 then (align % UInt32.size, m)
  else
    let start := alignUp (max m.size 1) align
    let padding := List.replicate (start + size - m.size) 0
    (start, { bytes := m.bytes ++ padding, ledger := { start, size, align } :: m.ledger })

/-- The ledger after freeing the newest block at `pointer`, which must be live and of the given size
and alignment. -/
def releaseAt (pointer size align : Nat) : List Block → Except AbiError (List Block)
  | [] => .error (.unknownAllocation pointer)
  | b :: older =>
    if b.start ≠ pointer then (releaseAt pointer size align older).map (b :: ·)
    else if !b.live then .error (.doubleFree pointer)
    else if b.size ≠ size ∨ b.align ≠ align then
      .error (.allocationMismatch pointer size align b.size b.align)
    else .ok (b.release :: older)

/-- Frees a block. Its size and alignment must be those it was handed out with. -/
def free (m : Memory) (pointer size align : Nat) : Except AbiError Memory :=
  if size = 0 then .ok m
  else (releaseAt pointer size (max align 1) m.ledger).map fun ledger => { m with ledger }

/-- The live blocks in address order. -/
def liveBlocks (m : Memory) : List Block :=
  (m.ledger.filter (·.live)).reverse

/-- A point in the sequence of allocations: the number of blocks handed out before it. -/
def mark (m : Memory) : Nat :=
  m.ledger.length

/-- Frees every live block handed out after `mark`, and says how many there were. -/
def releaseSince (m : Memory) (mark : Nat) : Nat × Memory :=
  let newer := m.ledger.length - mark
  ((m.ledger.take newer).countP (·.live),
    { m with ledger := (m.ledger.take newer).map Block.release ++ m.ledger.drop newer })

/-! ### Counters -/

/-- Number of blocks handed out. -/
def allocations (m : Memory) : Nat :=
  m.ledger.length

/-- Number of blocks freed. -/
def frees (m : Memory) : Nat :=
  m.ledger.countP (!·.live)

/-- Total size of the blocks handed out. -/
def bytesAllocated (m : Memory) : Nat :=
  (m.ledger.map (·.size)).sum

/-- Total size of the blocks freed. -/
def bytesFreed (m : Memory) : Nat :=
  ((m.ledger.filter (!·.live)).map (·.size)).sum

/-! ### Contents -/

/-- The bytes of an address range, which must lie inside the memory. The empty range lies inside
wherever it starts. -/
def read (m : Memory) (pointer length : Nat) : Except AbiError (List UInt8) :=
  if length = 0 then .ok []
  else if pointer + length ≤ m.size then .ok ((m.bytes.drop pointer).take length)
  else .error (.invalidMemoryPointer pointer length m.size)

/-- The little-endian number of `width` bytes at `pointer`. -/
def readNat (m : Memory) (pointer width : Nat) : Except AbiError Nat :=
  (m.read pointer width).map LittleEndian.value

/-- Overwrites an address range, which must lie inside the memory. -/
def write (m : Memory) (pointer : Nat) (data : List UInt8) : Except AbiError Memory :=
  if data.isEmpty then .ok m
  else if pointer + data.length ≤ m.size then
    .ok { m with bytes := m.bytes.take pointer ++ data ++ m.bytes.drop (pointer + data.length) }
  else .error (.invalidMemoryPointer pointer (data.length % UInt32.size) m.size)

end Memory

/-! ### Memory steps -/

/-- A step that works on a memory. A failing step keeps what it did to the memory before. -/
abbrev MemoryM := ExceptT AbiError (StateM Memory)

namespace MemoryM

/-- Hands out a block and answers its address. -/
def alloc (size align : Nat) : MemoryM Nat :=
  modifyGet fun m => m.alloc size align

/-- A change of the memory that may be refused, and then changes nothing. -/
def update (change : Memory → Except AbiError Memory) : MemoryM Unit := do
  match change (← get) with
  | .ok m => set m
  | .error e => throw e

/-- Frees a block. -/
def free (pointer size align : Nat) : MemoryM Unit :=
  update fun m => m.free pointer size align

/-- Writes bytes. -/
def write (pointer : Nat) (data : List UInt8) : MemoryM Unit :=
  update fun m => m.write pointer data

/-- Writes a number of `width` bytes. -/
def writeNat (pointer width n : Nat) : MemoryM Unit :=
  write pointer (LittleEndian.bytes width n)

/-- An answer that only looks at the memory. -/
def reading {α : Type} (look : Memory → Except AbiError α) : MemoryM α := do
  match look (← get) with
  | .ok a => return a
  | .error e => throw e

/-- A step that must not leave blocks behind when it fails: then every block that it handed out is
freed. -/
def guarded {α : Type} (step : MemoryM α) : MemoryM α := do
  let mark := (← get).mark
  try step
  catch e =>
    modify fun m => (m.releaseSince mark).2
    throw e

end MemoryM

/-! ### Requests -/

namespace Memory

/-- What can be asked of a memory. -/
inductive Request where
  /-- A new block. -/
  | alloc (size align : Nat)
  /-- That a block is freed. -/
  | free (pointer size align : Nat)
  /-- The point that the sequence of allocations has reached. -/
  | mark
  /-- That every live block handed out since a point is freed. -/
  | releaseSince (point : Nat)
  /-- The bytes of an address range. -/
  | read (pointer length : Nat)
  /-- That an address range is overwritten. -/
  | write (pointer : Nat) (data : List UInt8)
deriving DecidableEq, Repr

/-- What a memory answers. -/
inductive Reply where
  | address (pointer : Nat)
  | point (point : Nat)
  | count (blocks : Nat)
  | bytes (data : List UInt8)
  | done
deriving DecidableEq, Repr

/-- Does what is asked. -/
def Request.serve : Request → MemoryM Reply
  | alloc size align => return .address (← MemoryM.alloc size align)
  | free pointer size align => do
    MemoryM.free pointer size align
    return .done
  | mark => return .point (← get).mark
  | releaseSince point => return .count (← modifyGet fun m => m.releaseSince point)
  | read pointer length => return .bytes (← MemoryM.reading (·.read pointer length))
  | write pointer data => do
    MemoryM.write pointer data
    return .done

end Memory

end ComponentAbi
