import ComponentAbi.Memory

/-!
# Linear memory by its fields

A linear memory as it is kept: its bytes, the live allocations by their addresses, the addresses of
those that were freed, running counters, and the number of the next allocation. Every operation
updates the fields that it is about, one by one; nothing but that keeps them in step.

Addresses have 32 bits.
-/

namespace ComponentAbi

/-- A live allocation. -/
structure Allocation where
  /-- Number of bytes. -/
  size : Nat
  /-- The alignment that was asked for. -/
  align : Nat
  /-- Its place in the sequence of allocations. -/
  seq : Nat
deriving DecidableEq, Repr

/-- Running counters. -/
structure MemoryStats where
  /-- Number of blocks handed out. -/
  allocations : Nat := 0
  /-- Number of blocks freed. -/
  frees : Nat := 0
  /-- Total size of the blocks handed out. -/
  bytesAllocated : Nat := 0
  /-- Total size of the blocks freed. -/
  bytesFreed : Nat := 0
deriving DecidableEq, Repr

/-- Total size of the live blocks. -/
def MemoryStats.liveBytes (s : MemoryStats) : Nat :=
  s.bytesAllocated - s.bytesFreed

/-- The counters that a ledger amounts to. -/
def Memory.stats (m : Memory) : MemoryStats where
  allocations := m.allocations
  frees := m.frees
  bytesAllocated := m.bytesAllocated
  bytesFreed := m.bytesFreed

/-- A byte memory with what is known of its allocations. -/
structure LinearMemory where
  /-- The contents; address `i` holds `data[i]`. -/
  data : List UInt8 := []
  /-- The live allocations, in the order of their addresses. -/
  live : List (Nat × Allocation) := []
  /-- The addresses of allocations that were freed. -/
  freed : List Nat := []
  /-- The counters. -/
  stats : MemoryStats := {}
  /-- The number of the next allocation. -/
  nextSeq : Nat := 0
deriving DecidableEq, Repr

namespace LinearMemory

/-- The memory that holds the bytes, without allocations. -/
def ofBytes (data : List UInt8) : LinearMemory :=
  { data }

/-- Number of bytes. -/
def size (l : LinearMemory) : Nat :=
  l.data.length

/-- Puts an allocation where its address belongs, in place of one that is there already. -/
def insertAt (pointer : Nat) (a : Allocation) : List (Nat × Allocation) → List (Nat × Allocation)
  | [] => [(pointer, a)]
  | (other, old) :: rest =>
    if pointer = other then (pointer, a) :: rest
    else if pointer < other then (pointer, a) :: (other, old) :: rest
    else (other, old) :: insertAt pointer a rest

/-- Hands out a zeroed block at the end. Address 0 is never handed out. -/
def alloc (l : LinearMemory) (size align : Nat) : Nat × LinearMemory :=
  let align := max align 1
  if size = 0 then (align % UInt32.size, l)
  else
    let start := alignUp (max l.size 1) align
    let pointer := start % UInt32.size
    (pointer, {
      data := l.data ++ List.replicate (start + size - l.size) 0
      live := insertAt pointer { size, align, seq := l.nextSeq } l.live
      freed := l.freed
      stats := { l.stats with
        allocations := l.stats.allocations + 1
        bytesAllocated := l.stats.bytesAllocated + size }
      nextSeq := l.nextSeq + 1 })

/-- Moves a live allocation to those that were freed. -/
def release (l : LinearMemory) (pointer : Nat) (a : Allocation) : LinearMemory :=
  { l with
    live := l.live.filter (·.1 ≠ pointer)
    freed := l.freed.insert pointer
    stats := { l.stats with
      frees := l.stats.frees + 1
      bytesFreed := l.stats.bytesFreed + a.size } }

/-- Frees a block. Its size and alignment must be those it was handed out with. -/
def free (l : LinearMemory) (pointer size align : Nat) : Except AbiError LinearMemory :=
  let align := max align 1
  if size = 0 then .ok l
  else
    match l.live.lookup pointer with
    | some a =>
      if a.size ≠ size ∨ a.align ≠ align then
        .error (.allocationMismatch pointer size align a.size a.align)
      else .ok (l.release pointer a)
    | none =>
      if pointer ∈ l.freed then .error (.doubleFree pointer)
      else .error (.unknownAllocation pointer)

/-- A point in the sequence of allocations. -/
def mark (l : LinearMemory) : Nat :=
  l.nextSeq

/-- Frees every live block handed out after `mark`, and says how many there were. -/
def releaseSince (l : LinearMemory) (mark : Nat) : Nat × LinearMemory :=
  let doomed := l.live.filter (mark ≤ ·.2.seq)
  (doomed.length, doomed.foldl (fun l (pointer, a) => l.release pointer a) l)

/-- The addresses and sizes of the live blocks, in address order. -/
def liveAllocations (l : LinearMemory) : List (Nat × Nat) :=
  l.live.map fun (pointer, a) => (pointer, a.size)

/-- The bytes of an address range, which must lie inside the memory. The empty range lies inside
wherever it starts. -/
def read (l : LinearMemory) (pointer length : Nat) : Except AbiError (List UInt8) :=
  if length = 0 then .ok []
  else if pointer + length ≤ l.size then .ok ((l.data.drop pointer).take length)
  else .error (.invalidMemoryPointer pointer length l.size)

/-- Overwrites an address range, which must lie inside the memory. -/
def write (l : LinearMemory) (pointer : Nat) (data : List UInt8) : Except AbiError LinearMemory :=
  if data.isEmpty then .ok l
  else if pointer + data.length ≤ l.size then
    .ok { l with data := l.data.take pointer ++ data ++ l.data.drop (pointer + data.length) }
  else .error (.invalidMemoryPointer pointer (data.length % UInt32.size) l.size)

/-- Makes a change that may be refused, and then changes nothing. -/
def update (l : LinearMemory) :
    Except AbiError LinearMemory → Except AbiError Memory.Reply × LinearMemory
  | .ok changed => (.ok .done, changed)
  | .error e => (.error e, l)

/-- Does what is asked. -/
def serve (l : LinearMemory) : Memory.Request → Except AbiError Memory.Reply × LinearMemory
  | .alloc size align => ((.ok (.address (l.alloc size align).1)), (l.alloc size align).2)
  | .free pointer size align => l.update (l.free pointer size align)
  | .mark => (.ok (.point l.mark), l)
  | .releaseSince point => (.ok (.count (l.releaseSince point).1), (l.releaseSince point).2)
  | .read pointer length => ((l.read pointer length).map .bytes, l)
  | .write pointer data => l.update (l.write pointer data)

end LinearMemory

end ComponentAbi
