import ComponentAbi.Proofs.Marshal.Stored
import ComponentAbi.Proofs.Native.NormalForm
import ComponentAbi.Proofs.Shape.WordsAndBytes

/-!
# Lifting what was lowered

A native value that is stored at an address, or passed as some words, is read back as the value that
it stands for (`Stored.load`, `Carried.read`).

Reading is bounded by a depth. The types between two lists are nested no more deeply than the height
of a shape, and every list that is read into has a block of its own, so that the height of the shape
and the number of blocks bound the depth together (`Abi.enough_depth`).
-/

namespace ComponentAbi

variable {abi : Abi} {m : Memory}

/-! ### Readers -/

namespace WordReader

variable {taken n : Nat} {rest : List Word}

theorem next_word {w : Word} {t : CoreType} (h : w.kind = t) :
    next ⟨taken, w :: rest⟩ t = .ok (w.bits, ⟨taken + 1, rest⟩) := by
  simp [next, Word.expect, h, Except.map]

theorem next_ofNat (h : n < UInt32.size) :
    next ⟨taken, Word.ofNat n :: rest⟩ .i32 = .ok (n, ⟨taken + 1, rest⟩) := by
  rw [Word.ofNat, next_word (Word.kind_ofBits .i32 n), Word.bits_ofBits]
  exact congrArg (fun i => Except.ok (i, WordReader.mk (taken + 1) rest)) (Nat.mod_eq_of_lt h)

theorem take_words {ws : List Word} (h : n = ws.length) :
    take ⟨taken, ws ++ rest⟩ n = .ok (ws, ⟨taken + n, rest⟩) := by
  subst h
  simp [take]

theorem lt_of_next {r r' : WordReader} {t : CoreType} {bits : Nat}
    (h : r.next t = .ok (bits, r')) : bits < 256 ^ t.size := by
  rw [next] at h
  split at h
  · cases h
  · rename_i w rest hrest
    obtain ⟨_, hexpect, he⟩ := Except.map_eq_ok.1 h
    cases he
    rw [Word.expect] at hexpect
    split at hexpect <;> cases hexpect
    rename_i hkind
    exact hkind ▸ w.bits_lt

end WordReader

/-! ### Depth -/

/-- A reading that is nested as deeply as the shape, and as a shape once more for every block, and
for the items of one list that has none. -/
def Abi.DepthFor (abi : Abi) (s : Shape) (bs : List Block) (d : Nat) : Prop :=
  s.height + (bs.length + 1) * (abi.arena.size + 2) ≤ d

section Depth

variable {s : Shape} {bs bs' : List Block} {d : Nat}

theorem Abi.DepthFor.mono {s' : Shape} (h : abi.DepthFor s bs d) (hs : s'.height ≤ s.height)
    (hb : bs'.length ≤ bs.length) : abi.DepthFor s' bs' d := by
  have := Nat.mul_le_mul_right (abi.arena.size + 2) (Nat.add_le_add_right hb 1)
  unfold DepthFor at h ⊢
  omega

theorem Abi.DepthFor.pos (h : abi.DepthFor s bs d) : ∃ d', d = d' + 1 := by
  have := s.height_pos
  unfold DepthFor at h
  exact ⟨d - 1, by omega⟩

theorem Abi.DepthFor.field {kind : ProductKind} {fields : List (String × Shape)}
    {field : String × Shape} (h : abi.DepthFor (.product kind fields) bs (d + 1))
    (hm : field ∈ fields) : abi.DepthFor field.2 bs d := by
  have := Shape.fieldsHeight_le.1 (Nat.le_refl (Shape.fieldsHeight fields)) field hm
  have : (Shape.product kind fields).height = Shape.fieldsHeight fields + 1 := rfl
  unfold DepthFor at h ⊢
  omega

theorem Abi.DepthFor.case {kind : SumKind} {cases : List (String × Option Shape)} {label : String}
    (h : abi.DepthFor (.sum kind cases) bs (d + 1)) (hm : (label, some s) ∈ cases) :
    abi.DepthFor s bs d := by
  have := Shape.casesHeight_le.1 (Nat.le_refl (Shape.casesHeight cases)) label s hm
  have : (Shape.sum kind cases).height = Shape.casesHeight cases + 1 := rfl
  unfold DepthFor at h ⊢
  omega

/-- Reading the items of a list uses the block of the list up. -/
theorem Abi.DepthFor.items {element : TypeId} {start size align : Nat}
    (h : abi.DepthFor (.list element) (Block.ofArea start size align ++ bs) (d + 1))
    (hs : 0 < size) : abi.DepthFor (abi.shape element) bs d := by
  have := abi.height_shape element
  have : (Shape.list element).height = 1 := rfl
  unfold DepthFor at h ⊢
  rw [Block.ofArea_of_pos hs, List.singleton_append, List.length_cons, Nat.succ_mul] at h
  omega

/-- Items that take up no room have no lists in them, so there is nothing to use up for them. -/
theorem Abi.DepthFor.height_le {element : TypeId}
    (h : abi.DepthFor (.list element) bs (d + 1)) : (abi.shape element).height ≤ d := by
  have := abi.height_shape element
  have := Nat.le_mul_of_pos_left (abi.arena.size + 2) (Nat.add_one_pos bs.length)
  have : (Shape.list element).height = 1 := rfl
  unfold DepthFor at h
  omega

/-- The bound that readings start with is enough for blocks of the memory. -/
theorem Abi.enough_depth {id : TypeId} (hs : ∀ cause, abi.shape id ≠ .unresolved cause)
    (hb : bs.length ≤ m.size) : abi.DepthFor (abi.shape id) bs (abi.nestingBound m) := by
  have hheight := abi.height_shape id
  have hblocks := Nat.mul_le_mul_right (abi.arena.size + 2) (Nat.add_le_add_right hb 1)
  have hpos := Abi.size_pos_of_shape hs
  have hbound : m.size + 1 + 1 ≤ abi.arena.size * (m.size + 1) + 2 :=
    Nat.succ_le_succ (Nat.le_trans (Nat.le_mul_of_pos_left _ hpos) (Nat.le_succ _))
  have := Nat.mul_le_mul_right (abi.arena.size + 2) hbound
  rw [Nat.succ_mul] at this
  unfold DepthFor nestingBound
  omega

end Depth

/-! ### Rows -/

namespace Abi

/-- The values that native values stand for in their places. -/
def valuesAt (abi : Abi) (places : List (Shape × Nat)) (ns : List Native) : List Value :=
  (places.zip ns).map fun (place, n) => abi.value place.1 n

theorem valuesAt_row {fields : List (String × Shape)} {offsets : List Nat} {ns : List Native}
    (h : offsets.length = fields.length) (p : Nat) :
    abi.valuesAt (Shape.row fields offsets p) ns = abi.valueRow fields ns := by
  induction fields generalizing offsets ns with
  | nil => cases offsets <;> cases ns <;> rfl
  | cons field fields ih =>
    cases offsets with
    | nil => cases h
    | cons offset offsets =>
      cases ns with
      | nil => rfl
      | cons n ns => exact congrArg (abi.value field.2 n :: ·) (ih (Nat.succ.inj h))

theorem valuesAt_slots (s : Shape) (start size first : Nat) (items : List Native) :
    abi.valuesAt (Shape.slots s start size first items.length) items = abi.valueItems s items := by
  induction items generalizing first with
  | nil => rfl
  | cons n items ih => exact congrArg (abi.value s n :: ·) (ih (first + 1))

variable {P : Layout → Nat → Prop}

theorem everyList_row {fields : List (String × Shape)} {offsets : List Nat} {ns : List Native}
    (h : offsets.length = fields.length) (p : Nat) (hs : EveryListRow abi P fields ns) :
    ∀ entry ∈ (Shape.row fields offsets p).zip ns, EveryList abi P entry.1.1 entry.2 := by
  induction fields generalizing offsets ns with
  | nil => cases offsets <;> exact fun entry hm => absurd hm List.not_mem_nil
  | cons field fields ih =>
    cases offsets with
    | nil => cases h
    | cons offset offsets =>
      cases ns with
      | nil =>
        rw [List.zip_nil_right]
        exact fun entry hm => absurd hm List.not_mem_nil
      | cons n ns => exact List.forall_mem_cons.2 ⟨hs.1, ih (Nat.succ.inj h) hs.2⟩

theorem everyList_slots {s : Shape} {items : List Native} (start size first : Nat)
    (hs : EveryListItems abi P s items) :
    ∀ entry ∈ (Shape.slots s start size first items.length).zip items,
      EveryList abi P entry.1.1 entry.2 := by
  induction items generalizing first with
  | nil => exact fun entry hm => absurd hm List.not_mem_nil
  | cons n items ih => exact List.forall_mem_cons.2 ⟨hs.1, ih (first + 1) hs.2⟩

end Abi

theorem Shape.slots_eq_map (s : Shape) (start size first count : Nat) :
    slots s start size first count =
      (List.range' first count).map fun i => (s, start + i * size) := by
  induction count generalizing first with
  | zero => rfl
  | succ count ih => rw [slots, List.range'_succ, List.map_cons, ih]

theorem Shape.mem_slots {s : Shape} {start size first count : Nat} {place : Shape × Nat}
    (h : place ∈ slots s start size first count) : place.1 = s := by
  rw [slots_eq_map] at h
  obtain ⟨i, -, rfl⟩ := List.mem_map.1 h
  rfl

theorem Shape.mem_row {fields : List (String × Shape)} {offsets : List Nat} {p : Nat}
    {place : Shape × Nat} (h : place ∈ row fields offsets p) :
    ∃ field ∈ fields, place.1 = field.2 := by
  obtain ⟨⟨field, offset⟩, hm, rfl⟩ := List.mem_map.1 h
  exact ⟨field, (List.of_mem_zip hm).1, rfl⟩

/-! ### From memory -/

theorem loadPair_eq_ok {p start length : Nat} (hp : m.readNat p 4 = .ok start)
    (hn : m.readNat (p + 4) 4 = .ok length) : loadPair m p = .ok (start, length) := by
  rw [loadPair, hp, hn]
  rfl

theorem caseAt_eq_ok {α : Type} {cases : List α} {index : Nat} {c : α}
    (h : cases[index]? = some c) : caseAt cases index = .ok c := by
  rw [caseAt, h]

theorem getElem?_of_caseAt {α : Type} {cases : List α} {index : Nat} {c : α}
    (h : caseAt cases index = .ok c) : cases[index]? = some c := by
  rw [caseAt] at h
  split at h <;> cases h
  assumption

/-- Loaded items were loaded one by one, with the size of their type, which fits a word, between
them. -/
theorem Abi.exists_layout_of_loadItems {load : Shape → Nat → Except AbiError Value}
    {element : TypeId} {start length : Nat} {vs : List Value}
    (h : abi.loadItems m load element start length = .ok vs) :
    ∃ layout, (abi.shape element).layout = .ok layout ∧ layout.size < UInt32.size ∧
      ((List.range length).mapM fun i => load (abi.shape element) (start + i * layout.size)) =
        .ok vs := by
  obtain ⟨layout, hl, h⟩ := Except.bind_eq_ok.1 h
  obtain ⟨total, htotal, h⟩ := Except.bind_eq_ok.1 h
  obtain ⟨_, -, h⟩ := Except.bind_eq_ok.1 h
  have hstride := (itemBytes_eq_ok.1 htotal).1
  exact ⟨layout, hl, by omega, h⟩

/-- Where their bytes can be read, items are loaded one by one. -/
theorem Abi.loadItems_of_read {load : Shape → Nat → Except AbiError Value} {element : TypeId}
    {layout : Layout} {start length : Nat} (laid : (abi.shape element).layout = .ok layout)
    (stride : layout.size < UInt32.size) (total : max layout.size 1 * length < UInt32.size)
    (covers : length ≠ 0 → start + max layout.size 1 * length ≤ m.size) :
    abi.loadItems m load element start length =
      (List.range length).mapM fun i => load (abi.shape element) (start + i * layout.size) := by
  have hone : 1 < UInt32.size := Nat.le_of_ble_eq_true rfl
  have hbytes : itemBytes m start layout.size length = .ok (max layout.size 1 * length) :=
    itemBytes_eq_ok.2 ⟨by omega, total, rfl⟩
  have hread : ∃ data, m.read start (max layout.size 1 * length) = .ok data := by
    by_cases hlength : length = 0
    · exact ⟨[], by rw [hlength]; rfl⟩
    · exact ⟨_, Memory.read_of_le (covers hlength)⟩
  obtain ⟨data, hread⟩ := hread
  simp only [loadItems, laid, bind, Except.bind, hbytes, hread]

/-- A list, even an empty one, is not read if its items are too large for a word. -/
theorem Abi.loadItems_of_le_size {load : Shape → Nat → Except AbiError Value} {element : TypeId}
    {layout : Layout} (laid : (abi.shape element).layout = .ok layout)
    (oversized : UInt32.size ≤ layout.size) (start length : Nat) :
    abi.loadItems m load element start length =
      .error (.invalidMemoryPointer start (UInt32.size - 1) m.size) := by
  have hnot : ¬max layout.size 1 < UInt32.size := by omega
  simp only [loadItems, laid, bind, Except.bind, itemBytes, hnot, false_and, ↓reduceIte]

/-- The address and the length of a list fit words. -/
theorem ListAt.fit_words {element : TypeId} {items : List Native} {start length : Nat}
    {bs : List Block} (h : ListAt abi m element items start length bs) :
    start < UInt32.size ∧ length < UInt32.size := by
  cases h with
  | mk laid start_lt length_eq covers room row =>
    exact ⟨start_lt, length_eq ▸ Nat.mod_lt _ (Nat.le_of_ble_eq_true rfl)⟩

/-- The length counts the items, unless they take up no room. -/
theorem ListAt.area_eq {element : TypeId} {layout : Layout} {items : List Native}
    {start length : Nat} {bs : List Block} (h : ListAt abi m element items start length bs)
    (hl : (abi.shape element).layout = .ok layout) :
    layout.size * length = layout.size * items.length := by
  cases h with
  | mk laid start_lt length_eq covers room row =>
    cases hl.symm.trans laid
    rcases Nat.eq_zero_or_pos layout.size with hz | hpos
    · rw [hz, Nat.zero_mul, Nat.zero_mul]
    · have hle : items.length ≤ layout.size * items.length := Nat.le_mul_of_pos_left _ hpos
      rw [length_eq, Nat.mod_eq_of_lt (Nat.lt_of_le_of_lt hle (room hpos))]

mutual

/-- A value that takes up no room is loaded as what it stands for, from anywhere. -/
theorem Stored.load_weightless {s : Shape} {n : Native} {p d : Nat} {bs : List Block} {l : Layout} :
    Stored abi m s n p bs → s.layout = .ok l → l.size = 0 → s.height ≤ d →
      abi.loadWithin m d s p = .ok (abi.value s n)
  | .leaf (l := lf) _ _, hl, hz, _ => by
    rw [Shape.layout] at hl
    obtain ⟨-, -, rfl⟩ := Except.map_eq_ok.1 hl
    exact absurd hz lf.aligning_width.pos.ne'
  | .text .., hl, hz, _ | .list .., hl, hz, _ => by
    cases hl
    cases hz
  | @Stored.product _ _ kind fields _ offsets _ _ offset row, hl, hz, hd => by
    have hlen := Shape.length_fieldOffsets offset
    have hheight : (Shape.product kind fields).height = Shape.fieldsHeight fields + 1 := rfl
    obtain ⟨d, rfl⟩ : ∃ d', d = d' + 1 := ⟨d - 1, by omega⟩
    have hfields : Shape.fieldsHeight fields ≤ d := by omega
    rw [Shape.layout] at hl
    obtain ⟨ls, hls, rfl⟩ := Except.map_eq_ok.1 hl
    have hsizes := (Layout.size_sequence_eq_zero (Shape.aligning_fields fields hls)).1 hz
    have hrow := row.load_weightless (fun place hm => by
      obtain ⟨field, hf, he⟩ := Shape.mem_row hm
      obtain ⟨l, hlm, hl⟩ := Except.exists_mem_of_mem_mapM (Shape.fieldLayouts_eq fields ▸ hls)
        (List.mem_map_of_mem hf)
      exact he ▸ ⟨l, hl, hsizes l hlm⟩) fun place hm => by
        obtain ⟨field, hf, he⟩ := Shape.mem_row hm
        exact he ▸ Shape.fieldsHeight_le.1 hfields field hf
    rw [Abi.valuesAt_row hlen, Shape.row, List.mapM_map] at hrow
    exact Except.bind_eq_ok.2 ⟨_, offset, Except.bind_eq_ok.2 ⟨_, hrow, rfl⟩⟩
  | .bare .., hl, hz, _ | .payload .., hl, hz, _ => absurd hz (Shape.size_sum_ne_zero hl)

theorem StoredRow.load_weightless {places : List (Shape × Nat)} {ns : List Native} {d : Nat}
    {bs : List Block} : StoredRow abi m places ns bs →
      (∀ place ∈ places, ∃ l, place.1.layout = .ok l ∧ l.size = 0) →
      (∀ place ∈ places, place.1.height ≤ d) →
      (places.mapM fun place => abi.loadWithin m d place.1 place.2) = .ok (abi.valuesAt places ns)
  | .nil, _, _ => rfl
  | .cons head tail, hz, hd => by
    obtain ⟨⟨l, hl, hz⟩, hzrest⟩ := List.forall_mem_cons.1 hz
    obtain ⟨hd, hdrest⟩ := List.forall_mem_cons.1 hd
    exact Except.mapM_cons_eq_ok.2
      ⟨_, _, head.load_weightless hl hz hd, tail.load_weightless hzrest hdrest, rfl⟩

end

mutual

/-- A stored value is loaded as what it stands for. -/
theorem Stored.load {s : Shape} {n : Native} {p d : Nat} {bs : List Block} :
    Stored abi m s n p bs → EveryList abi (Layout.Readable m.size) s n → abi.DepthFor s bs d →
      abi.loadWithin m d s p = .ok (abi.value s n)
  | .leaf holds read, _, hd => by
    obtain ⟨d, rfl⟩ := hd.pos
    rw [Abi.loadWithin, read]
    exact holds.decode_mod
  | .text pointer count text_at, _, hd => by
    obtain ⟨d, rfl⟩ := hd.pos
    refine Except.bind_eq_ok.2 ⟨_, loadPair_eq_ok pointer count, ?_⟩
    exact Except.bind_eq_ok.2 ⟨_, text_at.liftString, rfl⟩
  | .list pointer count list_at, hs, hd => by
    obtain ⟨d, rfl⟩ := hd.pos
    refine Except.bind_eq_ok.2 ⟨_, loadPair_eq_ok pointer count, ?_⟩
    exact Except.bind_eq_ok.2 ⟨_, list_at.load hs hd, rfl⟩
  | @Stored.product _ _ kind fields _ offsets _ _ offset row, hs, hd => by
    obtain ⟨d, rfl⟩ := hd.pos
    have hlen := Shape.length_fieldOffsets offset
    have hrow := row.load (Abi.everyList_row hlen p hs) fun place hm => by
      obtain ⟨field, hf, he⟩ := Shape.mem_row hm
      exact he ▸ hd.field hf
    rw [Abi.valuesAt_row hlen, Shape.row, List.mapM_map] at hrow
    exact Except.bind_eq_ok.2 ⟨_, offset, Except.bind_eq_ok.2 ⟨_, hrow, rfl⟩⟩
  | .bare case laid read, _, hd => by
    obtain ⟨d, rfl⟩ := hd.pos
    rw [Abi.loadWithin, laid, Abi.value, case]
    simp only [bind, Except.bind, read, caseAt_eq_ok case]
    rfl
  | .payload case laid read stored, hs, hd => by
    obtain ⟨d, rfl⟩ := hd.pos
    have hpayload := stored.load ((everyList_payload case rfl rfl).1 hs)
      (hd.case (List.mem_of_getElem? case))
    rw [Abi.loadWithin, laid, Abi.value, case]
    simp only [bind, Except.bind, read, caseAt_eq_ok case, hpayload]
    rfl

theorem StoredRow.load {places : List (Shape × Nat)} {ns : List Native} {d : Nat}
    {bs : List Block} : StoredRow abi m places ns bs →
      (∀ entry ∈ places.zip ns, EveryList abi (Layout.Readable m.size) entry.1.1 entry.2) →
      (∀ place ∈ places, abi.DepthFor place.1 bs d) →
      (places.mapM fun place => abi.loadWithin m d place.1 place.2) = .ok (abi.valuesAt places ns)
  | .nil, _, _ => rfl
  | .cons head tail, hs, hd => by
    obtain ⟨hs, hrest⟩ := List.forall_mem_cons.1 hs
    obtain ⟨hd, hdrest⟩ := List.forall_mem_cons.1 hd
    refine Except.mapM_cons_eq_ok.2 ⟨_, _, head.load hs ?_, tail.load hrest fun place hm => ?_, rfl⟩
    · exact hd.mono (Nat.le_refl _) (by rw [List.length_append]; omega)
    · exact (hdrest place hm).mono (Nat.le_refl _) (by rw [List.length_append]; omega)

theorem ListAt.load {element : TypeId} {items : List Native} {start length d : Nat}
    {bs : List Block} : ListAt abi m element items start length bs →
      EveryList abi (Layout.Readable m.size) (.list element) (.list items) →
      abi.DepthFor (.list element) bs (d + 1) →
      abi.loadItems m (abi.loadWithin m d) element start length =
        .ok (abi.valueItems (abi.shape element) items)
  | @ListAt.mk _ _ _ layout _ _ _ _ laid start_lt length_eq covers room row dangling, hs, hd => by
    obtain ⟨hstride, hfew⟩ := hs.1 layout laid
    -- A list of no items is read without looking at the memory, but not if they are too large.
    by_cases hitems : items = []
    · subst hitems
      subst length_eq
      have hstride := hstride rfl
      exact Abi.loadItems_of_read laid hstride (Nat.zero_lt_of_lt hstride) fun h => absurd rfl h
    have hcount := List.length_pos_of_ne_nil hitems
    rcases Nat.eq_zero_or_pos layout.size with hz | hsize
    · -- The items take one byte each, from their alignment on.
      obtain ⟨hlt, hword⟩ := hfew hcount.ne' hz
      have hstride : layout.size < UInt32.size := by omega
      rw [Nat.mod_eq_of_lt hword] at length_eq
      subst length_eq
      have hstart : start = 1 := (dangling hz).trans (Shape.align_eq_one _ laid hz)
      have hrow := row.load_weightless (fun place hm => ⟨layout, Shape.mem_slots hm ▸ laid, hz⟩)
        fun place hm => Shape.mem_slots hm ▸ hd.height_le
      rw [Abi.valuesAt_slots, Shape.slots_eq_map, List.mapM_map, ← List.range_eq_range'] at hrow
      have hmax : max layout.size 1 * items.length = items.length := by
        rw [hz, Nat.max_eq_right (Nat.zero_le 1), Nat.one_mul]
      exact (Abi.loadItems_of_read laid hstride (by omega) fun _ => by omega).trans hrow
    · have hroom := room hsize
      have harea : 0 < layout.size * items.length := Nat.mul_pos hsize hcount
      have hle : items.length ≤ layout.size * items.length := Nat.le_mul_of_pos_left _ hsize
      have hstride : layout.size < UInt32.size :=
        Nat.lt_of_le_of_lt (Nat.le_mul_of_pos_right _ hcount) hroom
      rw [Nat.mod_eq_of_lt (Nat.lt_of_le_of_lt hle hroom)] at length_eq
      subst length_eq
      have hrow := row.load (Abi.everyList_slots _ _ _ hs.2) fun place hm => by
        rw [Shape.mem_slots hm]
        exact hd.items harea
      rw [Abi.valuesAt_slots, Shape.slots_eq_map, List.mapM_map, ← List.range_eq_range'] at hrow
      have hcovers := covers (by omega)
      rw [← Nat.max_eq_left hsize] at hcovers hroom
      exact (Abi.loadItems_of_read laid hstride hroom fun _ => hcovers).trans hrow

end

/-! ### From words -/

mutual

/-- The words of a value are of the kinds that its type has. -/
theorem Carried.kinds {s : Shape} {n : Native} {ws : List Word} {bs : List Block}
    {kinds : List CoreType} :
    Carried abi m s n ws bs → s.flatten = .ok kinds → ws.map Word.kind = kinds
  | .leaf holds, hk => by
    rw [Shape.flatten] at hk
    obtain ⟨-, -, rfl⟩ := Except.map_eq_ok.1 hk
    rw [List.map_singleton, Word.kind_ofBits]
  | .text text_at, hk => by cases hk; rfl
  | .list list_at, hk => by cases hk; rfl
  | .product row, hk => row.kinds hk
  | .bare case lt flat fill, hk => by
    rw [Shape.flatten, flat] at hk
    cases hk
    obtain ⟨filled, hf, hkinds, -⟩ := @Shape.fillSlots_drainSlots _ [] rfl
    cases fill.symm.trans hf
    exact congrArg (CoreType.i32 :: ·) hkinds
  | .payload case lt flat carried fill, hk => by
    rw [Shape.flatten, flat] at hk
    cases hk
    obtain ⟨own, hown, hj⟩ := Shape.fits_slots flat (List.mem_of_getElem? case)
    obtain ⟨filled, hf, hkinds, -⟩ := Shape.fillSlots_drainSlots ((carried.kinds hown).symm ▸ hj)
    cases fill.symm.trans hf
    exact congrArg (CoreType.i32 :: ·) hkinds

theorem CarriedRow.kinds {fields : List (String × Shape)} {ns : List Native} {ws : List Word}
    {bs : List Block} {kinds : List CoreType} :
    CarriedRow abi m fields ns ws bs → Shape.flattenFields fields = .ok kinds →
      ws.map Word.kind = kinds
  | .nil, hk => by cases hk; rfl
  | .cons head tail, hk => by
    rw [Shape.flattenFields] at hk
    obtain ⟨first, hfirst, hk⟩ := Except.bind_eq_ok.1 hk
    obtain ⟨more, hmore, hk⟩ := Except.bind_eq_ok.1 hk
    cases hk
    rw [List.map_append, head.kinds hfirst, tail.kinds hmore]

end

/-- The words of a payload come out of the slots that it shares with other payloads. -/
theorem Carried.drain {cases : List (String × Option Shape)} {index : Nat} {label : String}
    {s : Shape} {n : Native} {slots : List CoreType} {own filled : List Word} {bs : List Block}
    (h : Carried abi m s n own bs) (case : cases[index]? = some (label, some s))
    (flat : Shape.flattenCases cases = .ok slots) (fill : Shape.fillSlots slots own = .ok filled) :
    ∃ kinds, s.flatten = .ok kinds ∧ drainSlots filled kinds = .ok own ∧
      slots.length = filled.length := by
  obtain ⟨kinds, hk, hj⟩ := Shape.fits_slots flat (List.mem_of_getElem? case)
  obtain ⟨filled', hf, hkinds, hd⟩ := Shape.fillSlots_drainSlots ((h.kinds hk).symm ▸ hj)
  cases fill.symm.trans hf
  refine ⟨kinds, hk, (h.kinds hk) ▸ hd, ?_⟩
  rw [← hkinds, List.length_map]

mutual

/-- A value in words is read as what it stands for. -/
theorem Carried.read {s : Shape} {n : Native} {ws : List Word} {d : Nat} {bs : List Block}
    (taken : Nat) (rest : List Word) :
    Carried abi m s n ws bs → EveryList abi (Layout.Readable m.size) s n → abi.DepthFor s bs d →
      abi.readWithin m d s ⟨taken, ws ++ rest⟩ =
        .ok (abi.value s n, ⟨taken + ws.length, rest⟩)
  | @Carried.leaf _ _ _ _ bits holds, _, hd => by
    obtain ⟨d, rfl⟩ := hd.pos
    refine Except.bind_eq_ok.2 ⟨_, WordReader.next_word (Word.kind_ofBits _ _), ?_⟩
    rw [Word.bits_ofBits, Nat.mod_eq_of_lt holds.lt]
    exact Except.bind_eq_ok.2 ⟨_, holds.decode, rfl⟩
  | .text text_at, _, hd => by
    obtain ⟨d, rfl⟩ := hd.pos
    refine Except.bind_eq_ok.2 ⟨_, WordReader.next_ofNat text_at.start_lt, ?_⟩
    refine Except.bind_eq_ok.2 ⟨_, WordReader.next_ofNat text_at.length_lt, ?_⟩
    exact Except.bind_eq_ok.2 ⟨_, text_at.liftString, rfl⟩
  | .list list_at, hs, hd => by
    obtain ⟨d, rfl⟩ := hd.pos
    obtain ⟨hstart, hlength⟩ := list_at.fit_words
    refine Except.bind_eq_ok.2 ⟨_, WordReader.next_ofNat hstart, ?_⟩
    refine Except.bind_eq_ok.2 ⟨_, WordReader.next_ofNat hlength, ?_⟩
    exact Except.bind_eq_ok.2 ⟨_, list_at.load hs hd, rfl⟩
  | .product row, hs, hd => by
    obtain ⟨d, rfl⟩ := hd.pos
    have hrow := row.read taken rest hs fun field hf => hd.field hf
    exact Except.bind_eq_ok.2 ⟨_, hrow, rfl⟩
  | .bare case lt flat fill, _, hd => by
    obtain ⟨d, rfl⟩ := hd.pos
    rw [Abi.value, case]
    refine Except.bind_eq_ok.2 ⟨_, flat, ?_⟩
    refine Except.bind_eq_ok.2 ⟨_, WordReader.next_ofNat lt, ?_⟩
    refine Except.bind_eq_ok.2 ⟨_, WordReader.take_words (Shape.length_fillSlots fill), ?_⟩
    refine Except.bind_eq_ok.2 ⟨_, caseAt_eq_ok case, ?_⟩
    rw [Shape.length_fillSlots fill, List.length_cons, Nat.add_assoc, Nat.add_comm 1]
    rfl
  | .payload case lt flat carried fill, hs, hd => by
    obtain ⟨d, rfl⟩ := hd.pos
    obtain ⟨kinds, hk, hdrain, hlen⟩ := carried.drain case flat fill
    have hpayload := carried.read 0 [] ((everyList_payload case rfl rfl).1 hs)
      (hd.case (List.mem_of_getElem? case))
    rw [List.append_nil] at hpayload
    rw [Abi.value, case]
    refine Except.bind_eq_ok.2 ⟨_, flat, ?_⟩
    refine Except.bind_eq_ok.2 ⟨_, WordReader.next_ofNat lt, ?_⟩
    refine Except.bind_eq_ok.2 ⟨_, WordReader.take_words hlen, ?_⟩
    refine Except.bind_eq_ok.2 ⟨_, caseAt_eq_ok case, ?_⟩
    refine Except.bind_eq_ok.2 ⟨_, hk, Except.bind_eq_ok.2 ⟨_, hdrain, ?_⟩⟩
    refine Except.bind_eq_ok.2 ⟨_, hpayload, Except.bind_eq_ok.2 ⟨(), rfl, ?_⟩⟩
    rw [hlen, List.length_cons, Nat.add_assoc, Nat.add_comm 1]
    rfl

theorem CarriedRow.read {fields : List (String × Shape)} {ns : List Native}
    {ws : List Word} {d : Nat} {bs : List Block} (taken : Nat) (rest : List Word) :
    CarriedRow abi m fields ns ws bs → EveryListRow abi (Layout.Readable m.size) fields ns →
      (∀ field ∈ fields, abi.DepthFor field.2 bs d) →
      Abi.readFields (abi.readWithin m d) fields ⟨taken, ws ++ rest⟩ =
        .ok (abi.valueRow fields ns, ⟨taken + ws.length, rest⟩)
  | .nil, _, _ => rfl
  | @CarriedRow.cons _ _ _ _ _ _ _ ws₁ ws₂ _ _ head tail, hs, hd => by
    obtain ⟨hd, hdrest⟩ := List.forall_mem_cons.1 hd
    have hhead := head.read taken (ws₂ ++ rest) hs.1
      (hd.mono (Nat.le_refl _) (by rw [List.length_append]; omega))
    have htail := tail.read (taken + ws₁.length) rest hs.2 fun field hf =>
      (hdrest field hf).mono (Nat.le_refl _) (by rw [List.length_append]; omega)
    rw [List.append_assoc, List.length_append, ← Nat.add_assoc]
    exact Except.bind_eq_ok.2 ⟨_, hhead, Except.bind_eq_ok.2 ⟨_, htail, rfl⟩⟩

end

end ComponentAbi
