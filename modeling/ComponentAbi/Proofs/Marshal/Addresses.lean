import Mathlib
import ComponentAbi.Proofs.Marshal.Confinement
import ComponentAbi.Proofs.Marshal.Nesting

/-!
# Addresses that are computed while lifting

An address is computed from another one by adding an offset: of a field, of a payload, of a list
item, or of the length behind an address. `Abi.traceFlat` lifts a value the way `Abi.liftFlat` does,
but computes addresses in words of 32 bits, which wrap around, and takes note of every sum.

* `Follows.bind`, `Follows.bind_address`, `follows_mapM` : when a traced reading answers what
  another reading does, and all of its sums stay below a bound;
* `Abi.follows_traceWithin` : loading a value whose area is in the memory;
* `Abi.addresses_inside` : whatever the words and the memory hold, no sum that is computed while a
  value is lifted is past the end of the memory, so none wraps around.
-/

namespace ComponentAbi

/-! ### Taking note of addresses -/

/-- A sum of an address and an offset. -/
structure AddressSum where
  /-- The address that the offset is added to. -/
  base : Nat
  /-- The offset. -/
  offset : Nat
deriving DecidableEq, Repr

namespace AddressSum

/-- The sum. -/
def exact (s : AddressSum) : Nat :=
  s.base + s.offset

/-- What 32-bit words make of the sum: the offset is cut off, and the sum wraps around. -/
def wrapped (s : AddressSum) : Nat :=
  (UInt32.ofNat s.base + UInt32.ofNat s.offset).toNat

theorem wrapped_eq {s : AddressSum} (h : s.exact < UInt32.size) : s.wrapped = s.exact := by
  simp only [wrapped, exact, UInt32.toNat_add, UInt32.toNat_ofNat', UInt32.size] at h ⊢
  omega

end AddressSum

/-- A reading that takes note of the addresses it computes, in order. -/
abbrev Traced := ExceptT AbiError (StateM (List AddressSum))

namespace Traced

variable {α β : Type}

/-- The answer of a reading, and the addresses it computed after those in `log`. -/
def runAfter (x : Traced α) (log : List AddressSum) : Except AbiError α × List AddressSum :=
  StateT.run (ExceptT.run x) log

/-- Computes an address as 32-bit words do. -/
def address (base offset : Nat) : Traced Nat := do
  modify fun log => log ++ [⟨base, offset⟩]
  return AddressSum.wrapped ⟨base, offset⟩

theorem runAfter_bind (x : Traced α) (f : α → Traced β) (log : List AddressSum) :
    runAfter (x >>= f) log =
      match runAfter x log with
      | (.ok a, log') => runAfter (f a) log'
      | (.error e, log') => (.error e, log') := by
  unfold runAfter ExceptT.run StateT.run
  simp only [bind, ExceptT.bind, ExceptT.mk, StateT.bind, ExceptT.bindCont]
  cases x log with
  | mk r log' => cases r <;> rfl

end Traced

open Traced

section Follows

variable {α β : Type} {bound base offset : Nat}

/-- The reading answers what `y` is, and no address it computes is above `bound`. -/
def Follows (bound : Nat) (x : Traced α) (y : Except AbiError α) : Prop :=
  ∀ log, ∃ sums, (∀ s ∈ sums, s.exact ≤ bound) ∧ x.runAfter log = (y, log ++ sums)

theorem follows_liftM (y : Except AbiError α) : Follows bound (liftM y) y :=
  fun log => ⟨[], fun _ h => absurd h List.not_mem_nil, by rw [List.append_nil]; rfl⟩

theorem follows_throw (e : AbiError) : Follows bound (throw e : Traced α) (.error e) :=
  follows_liftM (.error e)

theorem follows_pure (a : α) : Follows bound (pure a) (.ok a) :=
  follows_liftM (.ok a)

theorem Follows.bind {x : Traced α} {y : Except AbiError α} {f : α → Traced β}
    {g : α → Except AbiError β} (hx : Follows bound x y)
    (hf : ∀ a, y = .ok a → Follows bound (f a) (g a)) : Follows bound (x >>= f) (y >>= g) := by
  intro log
  obtain ⟨sums, hsums, hx⟩ := hx log
  cases y with
  | error e => exact ⟨sums, hsums, by rw [runAfter_bind, hx]; rfl⟩
  | ok a =>
    obtain ⟨sums', hsums', hf⟩ := hf a rfl (log ++ sums)
    refine ⟨sums ++ sums', List.forall_mem_append.2 ⟨hsums, hsums'⟩, ?_⟩
    rw [runAfter_bind, hx, ← List.append_assoc]
    exact hf

theorem Follows.bind_liftM {y : Except AbiError α} {f : α → Traced β} {g : α → Except AbiError β}
    (hf : ∀ a, y = .ok a → Follows bound (f a) (g a)) : Follows bound (liftM y >>= f) (y >>= g) :=
  (follows_liftM y).bind hf

/-- What is below the bound is the exact sum. -/
theorem Follows.bind_address {f : Nat → Traced β} {y : Except AbiError β}
    (hle : base + offset ≤ bound) (hb : bound < UInt32.size)
    (hf : Follows bound (f (base + offset)) y) : Follows bound (address base offset >>= f) y := by
  intro log
  obtain ⟨sums, hsums, hf⟩ := hf (log ++ [⟨base, offset⟩])
  refine ⟨⟨base, offset⟩ :: sums, List.forall_mem_cons.2 ⟨hle, hsums⟩, ?_⟩
  have haddress : (address base offset).runAfter log =
      (.ok (AddressSum.wrapped ⟨base, offset⟩), log ++ [⟨base, offset⟩]) := rfl
  rw [runAfter_bind, haddress, AddressSum.wrapped_eq (Nat.lt_of_le_of_lt hle hb)]
  rw [List.append_assoc] at hf
  exact hf

theorem follows_mapM {xs : List α} {f : α → Traced β} {g : α → Except AbiError β}
    (h : ∀ x ∈ xs, Follows bound (f x) (g x)) : Follows bound (xs.mapM f) (xs.mapM g) := by
  induction xs with
  | nil => exact follows_pure []
  | cons x xs ih =>
    obtain ⟨hx, hxs⟩ := List.forall_mem_cons.1 h
    rw [List.mapM_cons, List.mapM_cons]
    exact hx.bind fun y _ => (ih hxs).bind fun ys _ => follows_pure _

end Follows

/-! ### Lifting with addresses in words -/

/-- Reads an address and a length. -/
def tracePair (m : Memory) (pointer : Nat) : Traced (Nat × Nat) := do
  let start ← liftM (m.readNat pointer 4)
  let length ← liftM (m.readNat (← address pointer 4) 4)
  return (start, length)

namespace Abi

/-- Loads list items, with `load` for each of them. -/
def traceItems (abi : Abi) (m : Memory) (load : Shape → Nat → Traced Value) (element : TypeId)
    (pointer length : Nat) : Traced (List Value) := do
  let shape := abi.shape element
  let size := (← liftM shape.layout).size
  let total ← liftM (itemBytes m pointer size length)
  let _ ← liftM (m.read pointer total)
  (List.range length).mapM fun i => do load shape (← address pointer (i * size))

/-- Loads a value that is nested less than `depth` deep. -/
def traceWithin (abi : Abi) (m : Memory) : Nat → Shape → Nat → Traced Value
  | 0, _, _ => throw .unboundedNesting
  | depth + 1, shape, pointer =>
    match shape with
    | .leaf l => do liftM (l.decode (← liftM (m.readNat pointer l.width)))
    | .string => do
      let (start, length) ← tracePair m pointer
      return .string (← liftM (liftString m start length))
    | .list element => do
      let (start, length) ← tracePair m pointer
      return .list (← abi.traceItems m (abi.traceWithin m depth) element start length)
    | .product kind fields => do
      let offsets ← liftM (Shape.fieldOffsets fields)
      let values ← (fields.zip offsets).mapM fun ((_, field), offset) => do
        abi.traceWithin m depth field (← address pointer offset)
      return kind.build (fields.map (·.1)) values
    | .sum kind cases => do
      let layout ← liftM (Shape.sumLayout kind cases)
      let index ← liftM (m.readNat pointer layout.discriminantSize)
      let start ← address pointer layout.payloadOffset
      let (label, payload) ← liftM (caseAt cases index)
      match payload with
      | none => return kind.build index label none
      | some shape =>
        return kind.build index label (some (← abi.traceWithin m depth shape start))
    | .unsupported _ title => throw (Shape.unsupportedError title)
    | .unresolved cause => throw cause

/-- Reads the fields of a product one after the other, with `read` for each of them. -/
def traceFields (read : Shape → WordReader → Traced (Value × WordReader)) :
    List (String × Shape) → WordReader → Traced (List Value × WordReader)
  | [], r => return ([], r)
  | (_, field) :: rest, r => do
    let (v, r) ← read field r
    let (vs, r) ← traceFields read rest r
    return (v :: vs, r)

/-- Reads a value that is nested less than `depth` deep from the next words. -/
def traceWords (abi : Abi) (m : Memory) :
    Nat → Shape → WordReader → Traced (Value × WordReader)
  | 0, _, _ => throw .unboundedNesting
  | depth + 1, shape, r =>
    match shape with
    | .leaf l => do
      let (bits, r) ← liftM (r.next l.core)
      return (← liftM (l.decode bits), r)
    | .string => do
      let (start, r) ← liftM (r.next .i32)
      let (length, r) ← liftM (r.next .i32)
      return (.string (← liftM (liftString m start length)), r)
    | .list element => do
      let (start, r) ← liftM (r.next .i32)
      let (length, r) ← liftM (r.next .i32)
      return (.list (← abi.traceItems m (abi.traceWithin m depth) element start length), r)
    | .product kind fields => do
      let (values, r) ← traceFields (abi.traceWords m depth) fields r
      return (kind.build (fields.map (·.1)) values, r)
    | .sum kind cases => do
      let slots ← liftM (Shape.flattenCases cases)
      let (index, r) ← liftM (r.next .i32)
      let (words, r) ← liftM (r.take slots.length)
      let (label, payload) ← liftM (caseAt cases index)
      match payload with
      | none => return (kind.build index label none, r)
      | some shape => do
        let kinds ← liftM shape.flatten
        let own ← liftM (drainSlots words kinds)
        let (v, rest) ← abi.traceWords m depth shape (.ofList own)
        liftM rest.finish
        return (kind.build index label (some v), r)
    | .unsupported _ title => throw (Shape.unsupportedError title)
    | .unresolved cause => throw cause

/-- The value of a type that exactly the given words stand for, if it is nested less than `depth`
deep, and the addresses computed on the way. -/
def traceFlat (abi : Abi) (m : Memory) (depth : Nat) (id : TypeId) (words : List Word) :
    Traced Value := do
  let (v, rest) ← abi.traceWords m depth (abi.shape id) (.ofList words)
  liftM rest.finish
  return v

/-! ### All of them are in the memory -/

variable {abi : Abi} {m : Memory} {s : Shape} {l : Layout} {p start length : Nat}

theorem follows_tracePair (hm : m.size < UInt32.size) (hp : p + 8 ≤ m.size) :
    Follows m.size (tracePair m p) (loadPair m p) :=
  Follows.bind_liftM fun start _ => Follows.bind_address (by omega) hm <|
    Follows.bind_liftM fun length _ => follows_pure _

/-- Items that are all in the memory start in the memory, and so do those that have no size. -/
theorem follows_traceItems {element : TypeId} {trace : Shape → Nat → Traced Value}
    {load : Shape → Nat → Except AbiError Value} (hm : m.size < UInt32.size)
    (ht : ∀ l p, (abi.shape element).layout = .ok l → p + l.size ≤ m.size →
      Follows m.size (trace (abi.shape element) p) (load (abi.shape element) p)) :
    Follows m.size (abi.traceItems m trace element start length)
      (abi.loadItems m load element start length) := by
  refine Follows.bind_liftM fun layout hl => Follows.bind_liftM fun total htotal => ?_
  refine Follows.bind_liftM fun data hread => follows_mapM fun i hi => ?_
  obtain ⟨-, -, rfl⟩ := itemBytes_eq_ok.1 htotal
  have hi : i < length := List.mem_range.1 hi
  have hone : 1 ≤ max layout.size 1 := Nat.le_max_right _ _
  have htotal : max layout.size 1 * length ≠ 0 := Nat.mul_ne_zero (by omega) (by omega)
  have hroom := (Memory.read_eq_ok hread htotal).1
  have hitem : (i + 1) * layout.size ≤ max layout.size 1 * length := by
    rw [Nat.mul_comm]
    exact Nat.mul_le_mul (Nat.le_max_left _ _) hi
  rw [Nat.succ_mul] at hitem
  exact Follows.bind_address (by omega) hm (ht layout _ hl (by omega))

/-- A value whose area is in the memory has all of its parts there. -/
theorem follows_traceWithin (hm : m.size < UInt32.size) (depth : Nat) (hl : s.layout = .ok l)
    (hp : p + l.size ≤ m.size) :
    Follows m.size (abi.traceWithin m depth s p) (abi.loadWithin m depth s p) := by
  induction depth generalizing s l p with
  | zero => exact follows_throw _
  | succ depth ih =>
    cases s with
    | leaf lf => exact Follows.bind_liftM fun n _ => follows_liftM _
    | string =>
      cases hl
      refine (follows_tracePair hm hp).bind fun pair _ => ?_
      exact Follows.bind_liftM fun text _ => follows_pure _
    | list element =>
      cases hl
      refine (follows_tracePair hm hp).bind fun pair _ => ?_
      exact (follows_traceItems hm fun l p hl hp => ih hl hp).bind fun items _ => follows_pure _
    | product kind fields =>
      refine Follows.bind_liftM fun offsets ho => ?_
      refine (follows_mapM fun entry hm' => ?_).bind fun values _ => follows_pure _
      obtain ⟨l', hl', -, hend⟩ :=
        (Shape.placed_fields ho hl p).of_mem (List.mem_map_of_mem hm')
      have hend : p + entry.2 + l'.size ≤ p + l.size := hend
      exact Follows.bind_address (by omega) hm (ih hl' (by omega))
    | sum kind cases =>
      refine Follows.bind_liftM fun sl hsl => Follows.bind_liftM fun index _ => ?_
      cases (Shape.layout_sum hsl).symm.trans hl
      obtain ⟨-, -, hoffset, hinside⟩ := Shape.payload_inside hsl
      have hp : p + sl.size ≤ m.size := hp
      refine Follows.bind_address (by omega) hm (Follows.bind_liftM fun case hcase => ?_)
      obtain ⟨label, payload⟩ := case
      cases payload with
      | none => exact follows_pure _
      | some s =>
        obtain ⟨l', hl', hend⟩ := hinside label s (mem_of_caseAt hcase)
        exact (ih hl' (by omega)).bind fun v _ => follows_pure _
    | unsupported | unresolved => exact follows_throw _

theorem follows_traceFields {trace : Shape → WordReader → Traced (Value × WordReader)}
    {read : Shape → WordReader → Except AbiError (Value × WordReader)} {bound : Nat}
    (ht : ∀ s r, Follows bound (trace s r) (read s r)) (fields : List (String × Shape))
    (r : WordReader) : Follows bound (traceFields trace fields r) (readFields read fields r) := by
  induction fields generalizing r with
  | nil => exact follows_pure _
  | cons field fields ih =>
    exact (ht field.2 r).bind fun first _ => (ih first.2).bind fun rest _ => follows_pure _

/-- Nothing has to be known of the words: what is loaded through them is checked first. -/
theorem follows_traceWords (hm : m.size < UInt32.size) (depth : Nat) (r : WordReader) :
    Follows m.size (abi.traceWords m depth s r) (abi.readWithin m depth s r) := by
  induction depth generalizing s r with
  | zero => exact follows_throw _
  | succ depth ih =>
    cases s with
    | leaf lf =>
      exact Follows.bind_liftM fun next _ => Follows.bind_liftM fun v _ => follows_pure _
    | string =>
      exact Follows.bind_liftM fun start _ => Follows.bind_liftM fun length _ =>
        Follows.bind_liftM fun text _ => follows_pure _
    | list element =>
      refine Follows.bind_liftM fun start _ => Follows.bind_liftM fun length _ => ?_
      exact (follows_traceItems hm fun l p hl hp => follows_traceWithin hm depth hl hp).bind
        fun items _ => follows_pure _
    | product kind fields =>
      exact (follows_traceFields (fun s r => ih r) fields r).bind fun values _ => follows_pure _
    | sum kind cases =>
      refine Follows.bind_liftM fun slots _ => Follows.bind_liftM fun index _ =>
        Follows.bind_liftM fun words _ => Follows.bind_liftM fun case _ => ?_
      obtain ⟨label, payload⟩ := case
      cases payload with
      | none => exact follows_pure _
      | some s =>
        refine Follows.bind_liftM fun kinds _ => Follows.bind_liftM fun own _ => ?_
        exact (ih _).bind fun v _ => Follows.bind_liftM fun _ _ => follows_pure _
    | unsupported | unresolved => exact follows_throw _

/-- However deep a value is lifted, and whatever the words and the memory are, every address that is
computed on the way is in the memory or at its end. So 32-bit words make no difference: no sum wraps
around, no offset is cut off, and the answer is the same. -/
theorem addresses_inside (hm : m.size < UInt32.size) (id : TypeId) (words : List Word) :
    ((abi.traceFlat m (abi.nestingBound m) id words).runAfter []).1 = abi.liftFlat m id words ∧
    ∀ depth,
      ((abi.traceFlat m depth id words).runAfter []).1 = abi.liftWithin m depth id words ∧
      ∀ s ∈ ((abi.traceFlat m depth id words).runAfter []).2,
        s.base + s.offset ≤ m.size ∧ s.wrapped = s.base + s.offset := by
  have hflat (depth : Nat) :
      Follows m.size (abi.traceFlat m depth id words) (abi.liftWithin m depth id words) :=
    (follows_traceWords hm depth _).bind fun v _ => Follows.bind_liftM fun _ _ => follows_pure _
  refine ⟨?_, fun depth => ?_⟩
  · obtain ⟨sums, -, hrun⟩ := hflat (abi.nestingBound m) []
    rw [hrun]
    rfl
  · obtain ⟨sums, hsums, hrun⟩ := hflat depth []
    rw [hrun]
    exact ⟨rfl, fun s hs =>
      ⟨hsums s hs, AddressSum.wrapped_eq (Nat.lt_of_le_of_lt (hsums s hs) hm)⟩⟩

/-- A table whose rows have a number, perhaps another one, and a text. -/
def table : Abi where
  arena := ⟨#[.scalar .u8, .scalar .u16, .option ⟨1⟩, .string, .tuple [⟨0⟩, ⟨2⟩, ⟨3⟩], .list ⟨4⟩]⟩

/-- A memory with a text of two bytes, and a row that has it. -/
def tableMemory : Memory where
  bytes := [0x68, 0x69, 0, 0, 7, 0, 1, 0, 9, 0, 0, 0, 0, 0, 0, 0, 2, 0, 0, 0]

/-- The addresses of the row, of its fields, of the other number and of the length of the text. -/
theorem addresses_inside_table :
    tableMemory.size < UInt32.size ∧
    ((table.traceFlat tableMemory 4 ⟨5⟩ [.i32 4, .i32 1]).runAfter []).2 =
      [⟨4, 0⟩, ⟨4, 0⟩, ⟨4, 2⟩, ⟨6, 2⟩, ⟨4, 8⟩, ⟨12, 4⟩] ∧
    ∀ s ∈ ((table.traceFlat tableMemory 4 ⟨5⟩ [.i32 4, .i32 1]).runAfter []).2,
      s.base + s.offset ≤ 20 ∧ s.wrapped = s.base + s.offset := by
  have hm : tableMemory.size < UInt32.size := by decide
  exact ⟨hm, by cbv, ((addresses_inside hm ⟨5⟩ [.i32 4, .i32 1]).2 4).2⟩

end Abi

end ComponentAbi
