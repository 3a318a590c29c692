import ComponentAbi.Proofs.Marshal.Text
import ComponentAbi.Proofs.Native.Typing
import ComponentAbi.Proofs.Shape.Slots

/-!
# Lowered values

What it means that a native value is stored at an address (`Stored`), or passed as some words
(`Carried`): its own bytes or words are right, and everything it points to is in memory, in blocks
that belong to it. The blocks are those that lowering handed out, in that order.

Nothing but the bytes of the value and those of its blocks matters for it, so that it stays where it
is while other parts of the memory change (`Stored.frame`, `Carried.frame`).
-/

namespace ComponentAbi

open Memory (SameOn)

mutual

/-- The native value is stored at the address, and owns the blocks. -/
inductive Stored (abi : Abi) (m : Memory) : Shape → Native → Nat → List Block → Prop where
  | leaf {l : Leaf} {a : Atom} {bits p : Nat} (holds : l.Holds a bits)
    (read : m.readNat p l.width = .ok (bits % 256 ^ l.width)) :
    Stored abi m (.leaf l) (.atom a) p []
  | text {text : String} {p start length : Nat} {bs : List Block}
    (pointer : m.readNat p 4 = .ok start) (count : m.readNat (p + 4) 4 = .ok length)
    (text_at : TextAt m text start length bs) : Stored abi m .string (.text text) p bs
  | list {element : TypeId} {items : List Native} {p start length : Nat} {bs : List Block}
    (pointer : m.readNat p 4 = .ok start) (count : m.readNat (p + 4) 4 = .ok length)
    (list_at : ListAt abi m element items start length bs) :
    Stored abi m (.list element) (.list items) p bs
  | product {kind : ProductKind} {fields : List (String × Shape)} {parts : List Native}
    {offsets : List Nat} {p : Nat} {bs : List Block}
    (offset : Shape.fieldOffsets fields = .ok offsets)
    (row : StoredRow abi m (Shape.row fields offsets p) parts bs) :
    Stored abi m (.product kind fields) (.product parts) p bs
  | bare {kind : SumKind} {cases : List (String × Option Shape)} {index p : Nat} {label : String}
    {layout : SumLayout} (case : cases[index]? = some (label, none))
    (laid : Shape.sumLayout kind cases = .ok layout)
    (read : m.readNat p layout.discriminantSize = .ok index) :
    Stored abi m (.sum kind cases) (.sum index none) p []
  | payload {kind : SumKind} {cases : List (String × Option Shape)} {index p : Nat}
    {label : String} {shape : Shape} {n : Native} {layout : SumLayout} {bs : List Block}
    (case : cases[index]? = some (label, some shape))
    (laid : Shape.sumLayout kind cases = .ok layout)
    (read : m.readNat p layout.discriminantSize = .ok index)
    (stored : Stored abi m shape n (p + layout.payloadOffset) bs) :
    Stored abi m (.sum kind cases) (.sum index (some n)) p bs

/-- The native values are stored in their places. -/
inductive StoredRow (abi : Abi) (m : Memory) :
    List (Shape × Nat) → List Native → List Block → Prop where
  | nil : StoredRow abi m [] [] []
  | cons {shape : Shape} {p : Nat} {places : List (Shape × Nat)} {n : Native} {ns : List Native}
    {bs bs' : List Block} (head : Stored abi m shape n p bs)
    (tail : StoredRow abi m places ns bs') :
    StoredRow abi m ((shape, p) :: places) (n :: ns) (bs ++ bs')

/-- The items of a list are stored in a block at the address. The length is what is left of their
number in a word. Items that take up no room have no block, and the address is their alignment. -/
inductive ListAt (abi : Abi) (m : Memory) :
    TypeId → List Native → Nat → Nat → List Block → Prop where
  | mk {element : TypeId} {layout : Layout} {items : List Native} {start length : Nat}
    {bs : List Block} (laid : (abi.shape element).layout = .ok layout)
    (start_lt : start < UInt32.size) (length_eq : length = items.length % UInt32.size)
    (covers : m.Covers start (start + layout.size * items.length))
    (room : 0 < layout.size → layout.size * items.length < UInt32.size)
    (row : StoredRow abi m (Shape.slots (abi.shape element) start layout.size 0 items.length)
      items bs)
    (dangling : layout.size = 0 → start = layout.align) :
    ListAt abi m element items start length
      (Block.ofArea start (layout.size * items.length) layout.align ++ bs)

end

mutual

/-- The native value is passed as the words, and owns the blocks. -/
inductive Carried (abi : Abi) (m : Memory) : Shape → Native → List Word → List Block → Prop where
  | leaf {l : Leaf} {a : Atom} {bits : Nat} (holds : l.Holds a bits) :
    Carried abi m (.leaf l) (.atom a) [Word.ofBits l.core bits] []
  | text {text : String} {start length : Nat} {bs : List Block}
    (text_at : TextAt m text start length bs) :
    Carried abi m .string (.text text) [Word.ofNat start, Word.ofNat length] bs
  | list {element : TypeId} {items : List Native} {start length : Nat} {bs : List Block}
    (list_at : ListAt abi m element items start length bs) :
    Carried abi m (.list element) (.list items) [Word.ofNat start, Word.ofNat length] bs
  | product {kind : ProductKind} {fields : List (String × Shape)} {parts : List Native}
    {ws : List Word} {bs : List Block} (row : CarriedRow abi m fields parts ws bs) :
    Carried abi m (.product kind fields) (.product parts) ws bs
  | bare {kind : SumKind} {cases : List (String × Option Shape)} {index : Nat} {label : String}
    {slots : List CoreType} {filled : List Word} (case : cases[index]? = some (label, none))
    (lt : index < UInt32.size) (flat : Shape.flattenCases cases = .ok slots)
    (fill : Shape.fillSlots slots [] = .ok filled) :
    Carried abi m (.sum kind cases) (.sum index none) (Word.ofNat index :: filled) []
  | payload {kind : SumKind} {cases : List (String × Option Shape)} {index : Nat} {label : String}
    {shape : Shape} {n : Native} {slots : List CoreType} {own filled : List Word}
    {bs : List Block} (case : cases[index]? = some (label, some shape))
    (lt : index < UInt32.size) (flat : Shape.flattenCases cases = .ok slots)
    (carried : Carried abi m shape n own bs) (fill : Shape.fillSlots slots own = .ok filled) :
    Carried abi m (.sum kind cases) (.sum index (some n)) (Word.ofNat index :: filled) bs

/-- The native values are passed as the words, one after the other. -/
inductive CarriedRow (abi : Abi) (m : Memory) :
    List (String × Shape) → List Native → List Word → List Block → Prop where
  | nil : CarriedRow abi m [] [] [] []
  | cons {label : String} {shape : Shape} {fields : List (String × Shape)} {n : Native}
    {ns : List Native} {ws ws' : List Word} {bs bs' : List Block}
    (head : Carried abi m shape n ws bs) (tail : CarriedRow abi m fields ns ws' bs') :
    CarriedRow abi m ((label, shape) :: fields) (n :: ns) (ws ++ ws') (bs ++ bs')

end

/-! ### What does not matter -/

/-- The two memories hold the same bytes in the blocks. -/
def SameIn (bs : List Block) (m m' : Memory) : Prop :=
  ∀ b ∈ bs, SameOn b.start (b.start + b.size) m m'

variable {abi : Abi} {m m' : Memory} {bs bs' : List Block}

theorem SameIn.left (h : SameIn (bs ++ bs') m m') : SameIn bs m m' :=
  fun b hb => h b (List.mem_append_left _ hb)

theorem SameIn.right (h : SameIn (bs ++ bs') m m') : SameIn bs' m m' :=
  fun b hb => h b (List.mem_append_right _ hb)

theorem SameIn.area {start size align : Nat} (h : SameIn (Block.ofArea start size align) m m') :
    SameOn start (start + size) m m' := by
  by_cases hs : size = 0
  · intro i h₁ h₂
    omega
  · refine h ⟨start, size, align, true⟩ ?_
    rw [Block.ofArea, if_neg hs]
    exact List.mem_singleton_self _

/-- An address and a length, one behind the other. -/
theorem Memory.SameOn.pair {p : Nat} (h : SameOn p (p + 8) m m') :
    SameOn p (p + 4) m m' ∧ SameOn (p + 4) (p + 4 + 4) m m' :=
  ⟨h.mono (Nat.le_refl _) (by omega), h.mono (by omega) (by omega)⟩

mutual

/-- A stored value stays where it is as long as its bytes and its blocks stay as they are. -/
theorem Stored.frame {s : Shape} {n : Native} {p : Nat} {bs : List Block} {l : Layout} :
    Stored abi m s n p bs → s.layout = .ok l → SameOn p (p + l.size) m m' → SameIn bs m m' →
      m.size ≤ m'.size → Stored abi m' s n p bs
  | .leaf (l := lf) holds read, hl, hs, _, _ => by
    rw [Shape.layout] at hl
    obtain ⟨-, -, rfl⟩ := Except.map_eq_ok.1 hl
    exact .leaf holds (hs.readNat read)
  | .text pointer count text_at, hl, hs, hb, _ => by
    cases hl
    exact .text (hs.pair.1.readNat pointer) (hs.pair.2.readNat count) (text_at.frame hb)
  | .list pointer count list_at, hl, hs, hb, hm => by
    cases hl
    exact .list (hs.pair.1.readNat pointer) (hs.pair.2.readNat count) (list_at.frame hb hm)
  | .product offset row, hl, hs, hb, hm =>
    .product offset (row.frame (Shape.placed_fields offset hl _) hs hb hm)
  | @Stored.bare _ _ _ _ _ _ _ sl case laid read, hl, hs, _, _ => by
    cases (Shape.layout_sum laid).symm.trans hl
    obtain ⟨-, hd, ho, -⟩ := Shape.payload_inside laid
    have hsize : sl.layout.size = sl.size := rfl
    exact .bare case laid ((hs.mono (Nat.le_refl _) (by omega)).readNat read)
  | @Stored.payload _ _ _ _ _ _ _ _ _ sl _ case laid read stored, hl, hs, hb, hm => by
    cases (Shape.layout_sum laid).symm.trans hl
    obtain ⟨-, hd, ho, hp⟩ := Shape.payload_inside laid
    obtain ⟨l', hl', hle⟩ := hp _ _ (List.mem_of_getElem? case)
    have hsize : sl.layout.size = sl.size := rfl
    exact .payload case laid ((hs.mono (Nat.le_refl _) (by omega)).readNat read)
      (stored.frame hl' (hs.mono (by omega) (by omega)) hb hm)

theorem StoredRow.frame {places : List (Shape × Nat)} {ns : List Native} {bs : List Block}
    {lo hi : Nat} : StoredRow abi m places ns bs → Shape.Placed lo hi places → SameOn lo hi m m' →
      SameIn bs m m' → m.size ≤ m'.size → StoredRow abi m' places ns bs
  | .nil, _, _, _, _ => .nil
  | .cons head tail, hp, hs, hb, hm => by
    obtain ⟨l, hl, hle, hr⟩ := hp
    exact .cons (head.frame hl (hs.mono hle hr.le) hb.left hm)
      (tail.frame hr (hs.mono (Nat.le_trans hle (Nat.le_add_right _ _)) (Nat.le_refl _)) hb.right
        hm)

theorem ListAt.frame {element : TypeId} {items : List Native} {start length : Nat}
    {bs : List Block} : ListAt abi m element items start length bs → SameIn bs m m' →
      m.size ≤ m'.size → ListAt abi m' element items start length bs
  | .mk laid start_lt length_eq covers room row dangling, hb, hm => by
    have hplaced := Shape.placed_slots laid start 0 items.length
    have hs := hb.left.area
    refine .mk laid start_lt length_eq (fun hlt => Nat.le_trans (covers hlt) hm) room
      (row.frame hplaced (hs.mono ?_ ?_) hb.right hm) dangling
    · exact Nat.le_add_right _ _
    · exact Nat.le_of_eq (by rw [Nat.zero_add, Nat.mul_comm items.length])

end

mutual

/-- A value in words stays what it is as long as its blocks stay as they are. -/
theorem Carried.frame {s : Shape} {n : Native} {ws : List Word} {bs : List Block} :
    Carried abi m s n ws bs → SameIn bs m m' → m.size ≤ m'.size → Carried abi m' s n ws bs
  | .leaf holds, _, _ => .leaf holds
  | .text text_at, hb, _ => .text (text_at.frame hb)
  | .list list_at, hb, hm => .list (list_at.frame hb hm)
  | .product row, hb, hm => .product (row.frame hb hm)
  | .bare case lt flat fill, _, _ => .bare case lt flat fill
  | .payload case lt flat carried fill, hb, hm =>
    .payload case lt flat (carried.frame hb hm) fill

theorem CarriedRow.frame {fields : List (String × Shape)} {ns : List Native} {ws : List Word}
    {bs : List Block} :
    CarriedRow abi m fields ns ws bs → SameIn bs m m' → m.size ≤ m'.size →
      CarriedRow abi m' fields ns ws bs
  | .nil, _, _ => .nil
  | .cons head tail, hb, hm => .cons (head.frame hb.left hm) (tail.frame hb.right hm)

end

end ComponentAbi
