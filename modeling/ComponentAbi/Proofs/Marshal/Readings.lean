import ComponentAbi.Proofs.Marshal.Handles
import ComponentAbi.Proofs.Marshal.Passing

/-!
# What readings that succeed give

Reading a lowered value gives what it stands for if it is bounded in depth and its lists have items
that take up room (`Stored.load`, `Carried.read`). Here is what is so of every reading that
succeeds: `ReadAs` says that a value is what a native value stands for, but that of a list whose
items take up no room only some may have been read.

No owned handle is lost like that, as a handle takes up room (`Stored.handles_eq_nil`).

* `loadsStored`, `readsCarried` : what is read from memory, and from words;
* `Abi.readRow_liftParams`, `Abi.readRow_liftResults` : what each side of a call gets.
-/

namespace ComponentAbi

/-! ### Handles of values -/

namespace Value

mutual

/-- The owned handles anywhere in a value, from left to right. -/
def handles : Value → List UInt32
  | own handle => [handle]
  | list items | tuple items => handlesOfAll items
  | record fields => handlesOfFields fields
  | variant _ payload | option payload | ok payload | err payload => handlesOfPayload payload
  | bool _ | u8 _ | u16 _ | u32 _ | u64 _ | s8 _ | s16 _ | s32 _ | s64 _ | f32 _ | f64 _ | char _
  | string _ | enum _ | flags _ | borrow _ => []
termination_by structural v => v

/-- The owned handles anywhere in some values. -/
def handlesOfAll : List Value → List UInt32
  | [] => []
  | v :: rest => v.handles ++ handlesOfAll rest
termination_by structural items => items

/-- The owned handles anywhere in some field values. -/
def handlesOfFields : List (String × Value) → List UInt32
  | [] => []
  | (_, v) :: rest => v.handles ++ handlesOfFields rest
termination_by structural fields => fields

/-- The owned handles anywhere in a payload. -/
def handlesOfPayload : Option Value → List UInt32
  | none => []
  | some v => v.handles
termination_by structural payload => payload

end

theorem handlesOfAll_eq (items : List Value) : handlesOfAll items = items.flatMap handles := by
  induction items with
  | nil => rfl
  | cons v items ih => rw [handlesOfAll, ih, List.flatMap_cons]

theorem handlesOfFields_zip {labels : List String} {values : List Value}
    (h : values.length = labels.length) :
    handlesOfFields (labels.zip values) = values.flatMap handles := by
  induction values generalizing labels with
  | nil =>
    rw [List.zip_nil_right]
    rfl
  | cons v values ih =>
    cases labels with
    | nil => cases h
    | cons label labels =>
      rw [List.zip_cons_cons, handlesOfFields, ih (Nat.succ.inj h), List.flatMap_cons]

/-- A case has the handles of its payload. -/
theorem InCase.handles_withPayload {v : Value} {given : Option Value} (h : v.InCase given)
    (payload : Option Value) : (v.withPayload payload).handles = handlesOfPayload payload := by
  cases h <;> rfl

end Value

/-- The owned handle that a native value is, if it is one. -/
def Atom.handles : Atom → List UInt32
  | own handle => [handle]
  | _ => []

namespace Native

mutual

/-- The owned handles anywhere in a native value, from left to right. -/
def handles : Native → List UInt32
  | atom a => a.handles
  | text _ => []
  | list items | product items => handlesOfAll items
  | sum _ payload => handlesOfPayload payload
termination_by structural n => n

/-- The owned handles anywhere in some native values. -/
def handlesOfAll : List Native → List UInt32
  | [] => []
  | n :: rest => n.handles ++ handlesOfAll rest
termination_by structural items => items

/-- The owned handles anywhere in a payload. -/
def handlesOfPayload : Option Native → List UInt32
  | none => []
  | some n => n.handles
termination_by structural payload => payload

end

theorem handlesOfAll_eq (items : List Native) : handlesOfAll items = items.flatMap handles := by
  induction items with
  | nil => rfl
  | cons n items ih => rw [handlesOfAll, ih, List.flatMap_cons]

end Native

theorem ProductKind.handles_build {labels : List String} {values : List Value} (kind : ProductKind)
    (h : values.length = labels.length) :
    (kind.build labels values).handles = values.flatMap Value.handles := by
  cases kind with
  | record name => exact Value.handlesOfFields_zip h
  | tuple => exact Value.handlesOfAll_eq values

theorem Leaf.handles_value {l : Leaf} {a : Atom} {bits : Nat} (h : l.Holds a bits) :
    (l.value a).handles = a.handles := by
  cases a with
  | scalar v =>
    have hencode := h.encode
    cases l with
    | scalar s => cases s <;> cases v <;> first | rfl | cases hencode
    | _ => cases hencode
  | enum index => cases l <;> rfl
  | flags bits => cases l <;> rfl
  | own handle => cases l <;> rfl
  | borrow handle => cases l <;> rfl

/-! ### Rows -/

/-- Native values and values in rows, with something for each of them. -/
inductive Row {α : Type} (R : α → Native → Value → Prop) :
    List α → List Native → List Value → Prop where
  | nil : Row R [] [] []
  | cons {x : α} {xs : List α} {n : Native} {ns : List Native} {v : Value} {vs : List Value}
    (head : R x n v) (tail : Row R xs ns vs) : Row R (x :: xs) (n :: ns) (v :: vs)

namespace Row

variable {α β : Type} {R P : α → Native → Value → Prop} {xs : List α} {ns : List Native}
  {vs : List Value}

theorem length_eq (h : Row R xs ns vs) : vs.length = xs.length := by
  induction h with
  | nil => rfl
  | cons _ _ ih => exact congrArg Nat.succ ih

theorem of_map {f : α → β} {R : β → Native → Value → Prop} (h : Row R (xs.map f) ns vs) :
    Row (fun x => R (f x)) xs ns vs := by
  induction xs generalizing ns vs with
  | nil =>
    cases h
    exact .nil
  | cons x xs ih =>
    cases h with
    | cons head tail => exact .cons head (ih tail)

/-- Where each native value gives something else of its value, it is so of the row. -/
theorem imp (h : Row R xs ns vs) (hp : ∀ x n, (x, n) ∈ xs.zip ns → ∀ v, R x n v → P x n v) :
    Row P xs ns vs := by
  induction h with
  | nil => exact .nil
  | cons head _ ih =>
    rw [List.zip_cons_cons] at hp
    exact .cons (hp _ _ List.mem_cons_self _ head)
      (ih fun x n hm => hp x n (List.mem_cons_of_mem _ hm))

/-- Each value with what it is there for. -/
theorem zip (h : Row R xs ns vs) :
    List.Forall₂ (fun entry n => R entry.1 n entry.2) (xs.zip vs) ns := by
  induction h with
  | nil => exact .nil
  | cons head _ ih => exact .cons head ih

theorem forall₂ {P : Value → Native → Prop} (h : Row R xs ns vs)
    (hp : ∀ x n, (x, n) ∈ xs.zip ns → ∀ v, R x n v → P v n) : List.Forall₂ P vs ns := by
  induction h with
  | nil => exact .nil
  | cons head _ ih =>
    rw [List.zip_cons_cons] at hp
    exact .cons (hp _ _ List.mem_cons_self _ head)
      (ih fun x n hm => hp x n (List.mem_cons_of_mem _ hm))

theorem of_replicate {P : Value → Native → Prop} {x : α} {count : Nat}
    (h : Row R (List.replicate count x) ns vs) (hp : ∀ n ∈ ns, ∀ v, R x n v → P v n) :
    List.Forall₂ P vs ns :=
  h.forall₂ fun y n hm v hv => by
    obtain ⟨hy, hn⟩ := List.of_mem_zip hm
    cases List.eq_of_mem_replicate hy
    exact hp n hn v hv

/-- The value under a label is one that is there for it. -/
theorem lookup {R : String × α → Native → Value → Prop} {fields : List (String × α)}
    (h : Row R fields ns vs) {label : String} (hm : label ∈ fields.map (·.1)) :
    ∃ field n v, (field, n) ∈ fields.zip ns ∧ field.1 = label ∧
      ((fields.map (·.1)).zip vs).lookup label = some v ∧ R field n v := by
  induction h with
  | nil => cases hm
  | @cons field fields n ns v vs head _ ih =>
    rw [List.zip_cons_cons, List.map_cons, List.zip_cons_cons]
    by_cases hl : label = field.1
    · refine ⟨field, n, v, List.mem_cons_self, hl.symm, ?_, head⟩
      rw [List.lookup_cons, hl, beq_self_eq_true]
    · obtain ⟨field', n', v', hzip, hlabel, hlookup, hr⟩ :=
        ih ((List.mem_cons.1 hm).resolve_left hl)
      refine ⟨field', n', v', List.mem_cons_of_mem _ hzip, hlabel, ?_, hr⟩
      rw [List.lookup_cons, beq_false_of_ne hl, hlookup]

end Row

theorem flatMap_handles_eq {ns : List Native} {vs : List Value}
    (h : List.Forall₂ (fun v n => v.handles = n.handles) vs ns) :
    vs.flatMap Value.handles = ns.flatMap Native.handles := by
  induction h with
  | nil => rfl
  | cons head _ ih => rw [List.flatMap_cons, List.flatMap_cons, head, ih]

/-! ### Readings -/

/-- The value is what a reading of the native value may give. Items of a list that are not read have
no owned handles. -/
inductive ReadAs (abi : Abi) : Shape → Native → Value → Prop where
  | leaf {l : Leaf} {a : Atom} {bits : Nat} (holds : l.Holds a bits) :
    ReadAs abi (.leaf l) (.atom a) (l.value a)
  | text (text : String) : ReadAs abi .string (.text text) (.string text)
  | list {element : TypeId} {seen unseen : List Native} {values : List Value}
    (row : Row (ReadAs abi) (List.replicate seen.length (abi.shape element)) seen values)
    (handles : ∀ n ∈ unseen, n.handles = []) :
    ReadAs abi (.list element) (.list (seen ++ unseen)) (.list values)
  | product {kind : ProductKind} {fields : List (String × Shape)} {parts : List Native}
    {values : List Value} (row : Row (ReadAs abi) (fields.map (·.2)) parts values) :
    ReadAs abi (.product kind fields) (.product parts) (kind.build (fields.map (·.1)) values)
  | bare {kind : SumKind} {cases : List (String × Option Shape)} {index : Nat} {label : String}
    (case : cases[index]? = some (label, none)) :
    ReadAs abi (.sum kind cases) (.sum index none) (kind.build index label none)
  | payload {kind : SumKind} {cases : List (String × Option Shape)} {index : Nat} {label : String}
    {shape : Shape} {n : Native} {v : Value} (case : cases[index]? = some (label, some shape))
    (read : ReadAs abi shape n v) :
    ReadAs abi (.sum kind cases) (.sum index (some n)) (kind.build index label (some v))

/-- Values that are read in a row. -/
def ReadRow (abi : Abi) : List Shape → List Native → List Value → Prop :=
  Row (ReadAs abi)

variable {abi : Abi} {m : Memory}

theorem readItems {s : Shape} {items : List Native}
    (h : ∀ n ∈ items, ReadAs abi s n (abi.value s n)) :
    ReadRow abi (List.replicate items.length s) items (abi.valueItems s items) := by
  induction items with
  | nil => exact .nil
  | cons n items ih =>
    obtain ⟨head, tail⟩ := List.forall_mem_cons.1 h
    exact .cons head (ih tail)

mutual

/-- What a native value stands for is a reading of it. -/
theorem Fits.readAs {s : Shape} {n : Native} : Fits abi s n → ReadAs abi s n (abi.value s n)
  | .leaf holds => by
    rw [Abi.value]
    exact .leaf holds
  | .text text => by
    rw [Abi.value]
    exact .text text
  | @Fits.list _ _ _ items _ fit => by
    rw [Abi.value, ← List.append_nil items]
    refine .list ?_ fun _ hn => absurd hn List.not_mem_nil
    rw [List.append_nil]
    exact readItems fun n hn => (fit n hn).readAs
  | .product fit => by
    rw [Abi.value]
    exact .product fit.readRow
  | .bare case _ => by
    rw [Abi.value, case]
    exact .bare case
  | .payload case _ fit => by
    rw [Abi.value, case]
    exact .payload case fit.readAs

theorem FitsRow.readRow {fields : List (String × Shape)} {ns : List Native} :
    FitsRow abi fields ns → ReadRow abi (fields.map (·.2)) ns (abi.valueRow fields ns)
  | .nil => .nil
  | .cons head tail => .cons head.readAs tail.readRow

end

/-! ### What takes up no room -/

mutual

/-- What takes up no room is no handle. -/
theorem Stored.handles_eq_nil {s : Shape} {n : Native} {p : Nat} {bs : List Block} {l : Layout} :
    Stored abi m s n p bs → s.layout = .ok l → l.size = 0 → n.handles = []
  | .leaf (l := lf) _ _, hl, hz => by
    rw [Shape.layout] at hl
    obtain ⟨-, -, rfl⟩ := Except.map_eq_ok.1 hl
    cases lf with
    | scalar s => cases s <;> cases hz
    | _ => cases hz
  | .text .., hl, hz | .list .., hl, hz => by
    cases hl
    cases hz
  | .product offset row, hl, hz => by
    refine row.handles_eq_nil (Shape.placed_fields offset hl _) ?_
    rw [hz]
    exact Nat.le_refl _
  | @Stored.bare _ _ kind _ _ _ _ sl _ laid _, hl, hz
  | @Stored.payload _ _ kind _ _ _ _ _ _ sl _ _ laid _ _, hl, hz => by
    cases (Shape.layout_sum laid).symm.trans hl
    obtain ⟨he, hd, ho, -⟩ := Shape.payload_inside laid
    have hpos := Shape.discriminantSize_pos kind
    have hsize : sl.layout.size = sl.size := rfl
    omega

theorem StoredRow.handles_eq_nil {places : List (Shape × Nat)} {ns : List Native}
    {bs : List Block} {lo hi : Nat} : StoredRow abi m places ns bs →
      Shape.Placed lo hi places → hi ≤ lo → Native.handlesOfAll ns = []
  | .nil, _, _ => rfl
  | .cons head tail, hp, hle => by
    obtain ⟨l, hl, hstart, hr⟩ := hp
    have hend := hr.le
    rw [Native.handlesOfAll, head.handles_eq_nil hl (by omega), tail.handles_eq_nil hr (by omega)]
    rfl

end

theorem Native.handles_of_mem {items : List Native} (h : handlesOfAll items = []) {n : Native}
    (hn : n ∈ items) : n.handles = [] := by
  rw [handlesOfAll_eq, List.flatMap_eq_nil_iff] at h
  exact h n hn

/-! ### From memory -/

section Memory

variable {d : Nat}

theorem Shape.take_slots (s : Shape) (start size first : Nat) {count k : Nat} (h : k ≤ count) :
    (slots s start size first count).take k = slots s start size first k := by
  induction k generalizing first count with
  | zero => rw [List.take_zero, slots]
  | succ k ih =>
    cases count with
    | zero => cases h
    | succ count =>
      rw [slots, List.take_succ_cons, ih (first + 1) (Nat.le_of_succ_le_succ h), slots]

theorem Shape.map_fst_slots (s : Shape) (start size first count : Nat) :
    (slots s start size first count).map (·.1) = List.replicate count s := by
  simp [slots_eq_map, Function.comp_def]

theorem Shape.map_fst_row {fields : List (String × Shape)} {offsets : List Nat}
    (h : offsets.length = fields.length) (p : Nat) :
    (row fields offsets p).map (·.1) = fields.map (·.2) := by
  rw [row, List.map_map, ← List.map_fst_zip (Nat.le_of_eq h.symm), List.map_map,
    List.map_fst_zip (Nat.le_of_eq h.symm)]
  rfl

theorem StoredRow.take {places : List (Shape × Nat)} {ns : List Native} {bs : List Block} (k : Nat)
    (h : StoredRow abi m places ns bs) :
    ∃ bs', StoredRow abi m (places.take k) (ns.take k) bs' := by
  induction places generalizing k ns bs with
  | nil =>
    cases h
    rw [List.take_nil, List.take_nil]
    exact ⟨[], .nil⟩
  | cons place places ih =>
    cases h with
    | cons head tail =>
      cases k with
      | zero => exact ⟨[], .nil⟩
      | succ k =>
        obtain ⟨bs', hrest⟩ := ih k tail
        exact ⟨_, .cons head hrest⟩

variable (abi m d) in
/-- Every loading that is nested less than `d` deep and succeeds gives what is stored. -/
def LoadsStored : Prop :=
  ∀ s n p bs v, Stored abi m s n p bs → abi.loadWithin m d s p = .ok v → ReadAs abi s n v

theorem LoadsStored.row (ih : LoadsStored abi m d) {places : List (Shape × Nat)}
    {ns : List Native} {bs : List Block} {vs : List Value} (h : StoredRow abi m places ns bs)
    (hvs : (places.mapM fun place => abi.loadWithin m d place.1 place.2) = .ok vs) :
    ReadRow abi (places.map (·.1)) ns vs := by
  induction places generalizing ns bs vs with
  | nil =>
    cases h
    cases hvs
    exact .nil
  | cons place places ihp =>
    cases h with
    | cons head tail =>
      obtain ⟨v, vs, hv, hrest, rfl⟩ := Except.mapM_cons_eq_ok.1 hvs
      exact .cons (ih _ _ _ _ _ head hv) (ihp tail hrest)

theorem LoadsStored.items (ih : LoadsStored abi m d) {element : TypeId} {items : List Native}
    {start length : Nat} {bs : List Block} {vs : List Value}
    (h : ListAt abi m element items start length bs)
    (hvs : abi.loadItems m (abi.loadWithin m d) element start length = .ok vs) :
    ReadAs abi (.list element) (.list items) (.list vs) := by
  cases h with
  | @mk _ layout _ _ _ bs laid start_lt length_eq covers room row =>
    have hle : length ≤ items.length := length_eq ▸ Nat.mod_le _ _
    obtain ⟨layout', hl, -, hvs⟩ := Abi.exists_layout_of_loadItems hvs
    cases laid.symm.trans hl
    obtain ⟨bs', hrow⟩ := row.take length
    rw [Shape.take_slots _ _ _ _ hle] at hrow
    have hread := ih.row hrow (by
      rw [Shape.slots_eq_map, List.mapM_map, ← List.range_eq_range']
      exact hvs)
    rw [Shape.map_fst_slots] at hread
    rw [← List.take_append_drop length items]
    refine .list (by rwa [List.length_take_of_le hle]) fun n hn => ?_
    -- The length went through a word, so it may have wrapped if the items take up no room; if they
    -- take up room, all of them were read.
    rcases Nat.eq_zero_or_pos layout.size with hz | hpos
    · have hplaced := Shape.placed_slots laid start 0 items.length
      refine Native.handles_of_mem (row.handles_eq_nil hplaced ?_) (List.mem_of_mem_drop hn)
      simp [hz]
    · have hfew : items.length ≤ layout.size * items.length := Nat.le_mul_of_pos_left _ hpos
      rw [length_eq, Nat.mod_eq_of_lt (Nat.lt_of_le_of_lt hfew (room hpos)), List.drop_length] at hn
      cases hn

theorem loadsStored (abi : Abi) (m : Memory) (d : Nat) : LoadsStored abi m d := by
  induction d with
  | zero =>
    intro s n p bs v _ hv
    cases hv
  | succ d ih =>
    intro s n p bs v h hv
    cases h with
    | leaf holds read =>
      obtain ⟨bits, hbits, hv⟩ := Except.bind_eq_ok.1 hv
      cases read.symm.trans hbits
      cases holds.decode_mod.symm.trans hv
      exact .leaf holds
    | text pointer count text_at =>
      obtain ⟨pair, hpair, hv⟩ := Except.bind_eq_ok.1 hv
      cases (loadPair_eq_ok pointer count).symm.trans hpair
      obtain ⟨text, htext, hv⟩ := Except.bind_eq_ok.1 hv
      cases text_at.liftString.symm.trans htext
      cases hv
      exact .text _
    | list pointer count list_at =>
      obtain ⟨pair, hpair, hv⟩ := Except.bind_eq_ok.1 hv
      cases (loadPair_eq_ok pointer count).symm.trans hpair
      obtain ⟨vs, hvs, hv⟩ := Except.bind_eq_ok.1 hv
      cases hv
      exact ih.items list_at hvs
    | product offset row =>
      obtain ⟨offsets, hoffsets, hv⟩ := Except.bind_eq_ok.1 hv
      cases offset.symm.trans hoffsets
      obtain ⟨vs, hvs, hv⟩ := Except.bind_eq_ok.1 hv
      cases hv
      have hrow := ih.row row (by
        rw [Shape.row, List.mapM_map]
        exact hvs)
      rw [Shape.map_fst_row (Shape.length_fieldOffsets offset)] at hrow
      exact .product hrow
    | bare case laid read =>
      obtain ⟨layout, hlayout, hv⟩ := Except.bind_eq_ok.1 hv
      cases laid.symm.trans hlayout
      obtain ⟨index, hindex, hv⟩ := Except.bind_eq_ok.1 hv
      cases read.symm.trans hindex
      obtain ⟨found, hfound, hv⟩ := Except.bind_eq_ok.1 hv
      cases (caseAt_eq_ok case).symm.trans hfound
      cases hv
      exact .bare case
    | payload case laid read stored =>
      obtain ⟨layout, hlayout, hv⟩ := Except.bind_eq_ok.1 hv
      cases laid.symm.trans hlayout
      obtain ⟨index, hindex, hv⟩ := Except.bind_eq_ok.1 hv
      cases read.symm.trans hindex
      obtain ⟨found, hfound, hv⟩ := Except.bind_eq_ok.1 hv
      cases (caseAt_eq_ok case).symm.trans hfound
      obtain ⟨v, hpayload, hv⟩ := Except.bind_eq_ok.1 hv
      cases hv
      exact .payload case (ih _ _ _ _ _ stored hpayload)

end Memory

/-! ### From words -/

section Words

variable {d : Nat}

variable (abi m d) in
/-- Every reading of words that is nested less than `d` deep and succeeds gives what they carry, and
leaves the words behind it. -/
def ReadsCarried : Prop :=
  ∀ s n ws bs taken rest v r, Carried abi m s n ws bs →
    abi.readWithin m d s ⟨taken, ws ++ rest⟩ = .ok (v, r) →
      ReadAs abi s n v ∧ r = ⟨taken + ws.length, rest⟩

theorem ReadsCarried.row (ih : ReadsCarried abi m d) {fields : List (String × Shape)}
    {ns : List Native} {ws rest : List Word} {bs : List Block} {taken : Nat} {vs : List Value}
    {r : WordReader} (h : CarriedRow abi m fields ns ws bs)
    (hvs : Abi.readFields (abi.readWithin m d) fields ⟨taken, ws ++ rest⟩ = .ok (vs, r)) :
    ReadRow abi (fields.map (·.2)) ns vs ∧ r = ⟨taken + ws.length, rest⟩ := by
  induction fields generalizing ns ws bs taken vs r with
  | nil =>
    cases h
    cases hvs
    exact ⟨.nil, rfl⟩
  | cons field fields ihf =>
    cases h with
    | @cons _ _ _ _ _ ws₁ ws₂ _ _ head tail =>
      rw [List.append_assoc] at hvs
      obtain ⟨⟨v, r₁⟩, hv, hvs⟩ := Except.bind_eq_ok.1 hvs
      obtain ⟨⟨vs, r₂⟩, hrest, hvs⟩ := Except.bind_eq_ok.1 hvs
      cases hvs
      obtain ⟨hread, rfl⟩ := ih _ _ _ _ _ _ _ _ head hv
      obtain ⟨hrow, rfl⟩ := ihf tail hrest
      refine ⟨.cons hread hrow, ?_⟩
      rw [List.length_append, Nat.add_assoc]

theorem readsCarried (abi : Abi) (m : Memory) (d : Nat) : ReadsCarried abi m d := by
  induction d with
  | zero =>
    intro s n ws bs taken rest v r _ hv
    cases hv
  | succ d ih =>
    intro s n ws bs taken rest v r h hv
    cases h with
    | leaf holds =>
      obtain ⟨⟨bits, r₁⟩, hnext, hv⟩ := Except.bind_eq_ok.1 hv
      cases (WordReader.next_word (Word.kind_ofBits _ _)).symm.trans hnext
      obtain ⟨v, hdecode, hv⟩ := Except.bind_eq_ok.1 hv
      cases hv
      rw [Word.bits_ofBits, Nat.mod_eq_of_lt holds.lt] at hdecode
      cases holds.decode.symm.trans hdecode
      exact ⟨.leaf holds, rfl⟩
    | text text_at =>
      obtain ⟨⟨start, r₁⟩, hstart, hv⟩ := Except.bind_eq_ok.1 hv
      cases (WordReader.next_ofNat text_at.start_lt).symm.trans hstart
      obtain ⟨⟨length, r₂⟩, hlength, hv⟩ := Except.bind_eq_ok.1 hv
      cases (WordReader.next_ofNat text_at.length_lt).symm.trans hlength
      obtain ⟨text, htext, hv⟩ := Except.bind_eq_ok.1 hv
      cases text_at.liftString.symm.trans htext
      cases hv
      exact ⟨.text _, rfl⟩
    | list list_at =>
      obtain ⟨hstart_lt, hlength_lt⟩ := list_at.fit_words
      obtain ⟨⟨start, r₁⟩, hstart, hv⟩ := Except.bind_eq_ok.1 hv
      cases (WordReader.next_ofNat hstart_lt).symm.trans hstart
      obtain ⟨⟨length, r₂⟩, hlength, hv⟩ := Except.bind_eq_ok.1 hv
      cases (WordReader.next_ofNat hlength_lt).symm.trans hlength
      obtain ⟨vs, hvs, hv⟩ := Except.bind_eq_ok.1 hv
      cases hv
      exact ⟨(loadsStored abi m d).items list_at hvs, rfl⟩
    | product row =>
      obtain ⟨⟨vs, r₁⟩, hvs, hv⟩ := Except.bind_eq_ok.1 hv
      cases hv
      obtain ⟨hrow, rfl⟩ := ih.row row hvs
      exact ⟨.product hrow, rfl⟩
    | bare case lt flat fill =>
      obtain ⟨slots, hslots, hv⟩ := Except.bind_eq_ok.1 hv
      cases flat.symm.trans hslots
      obtain ⟨⟨index, r₁⟩, hindex, hv⟩ := Except.bind_eq_ok.1 hv
      cases (WordReader.next_ofNat lt).symm.trans hindex
      obtain ⟨⟨own, r₂⟩, hown, hv⟩ := Except.bind_eq_ok.1 hv
      cases (WordReader.take_words (Shape.length_fillSlots fill)).symm.trans hown
      obtain ⟨found, hfound, hv⟩ := Except.bind_eq_ok.1 hv
      cases (caseAt_eq_ok case).symm.trans hfound
      cases hv
      refine ⟨.bare case, ?_⟩
      rw [Shape.length_fillSlots fill, List.length_cons, Nat.add_assoc, Nat.add_comm 1]
    | @payload _ _ _ _ _ _ _ own _ _ case lt flat carried fill =>
      obtain ⟨kinds, hk, hdrain, hlen⟩ := carried.drain case flat fill
      obtain ⟨slots, hslots, hv⟩ := Except.bind_eq_ok.1 hv
      cases flat.symm.trans hslots
      obtain ⟨⟨index, r₁⟩, hindex, hv⟩ := Except.bind_eq_ok.1 hv
      cases (WordReader.next_ofNat lt).symm.trans hindex
      obtain ⟨⟨words, r₂⟩, hwords, hv⟩ := Except.bind_eq_ok.1 hv
      cases (WordReader.take_words hlen).symm.trans hwords
      obtain ⟨found, hfound, hv⟩ := Except.bind_eq_ok.1 hv
      cases (caseAt_eq_ok case).symm.trans hfound
      obtain ⟨kinds', hk', hv⟩ := Except.bind_eq_ok.1 hv
      cases hk.symm.trans hk'
      obtain ⟨drained, hdrained, hv⟩ := Except.bind_eq_ok.1 hv
      cases hdrain.symm.trans hdrained
      obtain ⟨⟨v, r₃⟩, hpayload, hv⟩ := Except.bind_eq_ok.1 hv
      obtain ⟨_, -, hv⟩ := Except.bind_eq_ok.1 hv
      cases hv
      rw [WordReader.ofList, ← List.append_nil own] at hpayload
      refine ⟨.payload case (ih _ _ _ _ _ _ _ _ carried hpayload).1, ?_⟩
      rw [hlen, List.length_cons, Nat.add_assoc, Nat.add_comm 1]

end Words

/-! ### The steps of a call -/

namespace Abi

open Memory MemoryM

variable {sig : Signature} {ids : List TypeId} {ns : List Native} {ws : List Word}
  {bs : List Block} {vs : List Value} {m' : Memory}

theorem map_snd_fieldsOf (abi : Abi) (ids : List TypeId) :
    (abi.fieldsOf ids).map (·.2) = ids.map abi.shape := by
  rw [fieldsOf, List.map_map]
  rfl

theorem readRow_loadFields {p : Nat} (h : Stored abi m (abi.tupleOf ids) (.product ns) p bs)
    (hvs : abi.loadFields m ids p = .ok vs) : ReadRow abi (ids.map abi.shape) ns vs := by
  cases h with
  | product offset row =>
    obtain ⟨offsets, hoffsets, hvs⟩ := Except.bind_eq_ok.1 hvs
    cases offset.symm.trans hoffsets
    have hrow := (loadsStored abi m (abi.nestingBound m)).row row (by
      rw [Shape.row, List.mapM_map, fieldsOf, List.zip_map_left, List.mapM_map]
      exact hvs)
    rwa [Shape.map_fst_row (Shape.length_fieldOffsets offset), map_snd_fieldsOf] at hrow

theorem readAs_liftFlat {id : TypeId} {n : Native} {v : Value}
    (h : Carried abi m (abi.shape id) n ws bs) (hv : abi.liftFlat m id ws = .ok v) :
    ReadAs abi (abi.shape id) n v := by
  obtain ⟨⟨v, r⟩, hread, hv⟩ := Except.bind_eq_ok.1 hv
  obtain ⟨_, -, hv⟩ := Except.bind_eq_ok.1 hv
  cases hv
  rw [WordReader.ofList, ← List.append_nil ws] at hread
  exact (readsCarried abi m _ _ _ _ _ _ _ _ _ h hread).1

/-- Freeing a parameter leaves the bytes, so the next ones are read as what they were. -/
theorem readRow_liftParamWords {kinds : List CoreType} (front tail : List Word)
    (hf : FitsRow abi (abi.fieldsOf ids) ns) (h : CarriedRow abi m (abi.fieldsOf ids) ns ws bs)
    (hk : Shape.flattenFields (abi.fieldsOf ids) = .ok kinds) (ho : m.Owns bs)
    (hb : bs.length ≤ m.size)
    (hrun : runOn (abi.liftParamWords (front ++ ws ++ tail) front.length ids) m = (.ok vs, m')) :
    ReadRow abi (ids.map abi.shape) ns vs := by
  induction ids generalizing m front ns ws bs kinds vs with
  | nil =>
    cases h
    cases hrun
    exact .nil
  | cons id ids ih =>
    cases h with
    | @cons _ _ _ n ns w₁ w₂ b₁ b₂ head tail' =>
      cases hf with
      | cons hf hfrest =>
        rw [fieldsOf, List.map_cons, Shape.flattenFields] at hk
        obtain ⟨first, hfirst, hk⟩ := Except.bind_eq_ok.1 hk
        obtain ⟨more, hmore, -⟩ := Except.bind_eq_ok.1 hk
        have hcount : first.length = w₁.length := by
          rw [← head.kinds hfirst, List.length_map]
        rw [List.length_append] at hb
        have hfree := runOn_freeFlat head ho.left
          (enough_depth (not_unresolved_of_fits hf) (show b₁.length ≤ m.size by omega))
        rw [runOn_liftParamWords_cons front tail hfirst hcount] at hrun
        obtain ⟨v, m₁, hlift, hrun⟩ := runOn_bind_eq_ok.1 hrun
        rw [runOn_reading] at hlift
        obtain ⟨hv, rfl⟩ := Prod.mk.inj hlift
        rw [runOn_bind_of_ok hfree] at hrun
        obtain ⟨rest, m₂, hrest, hrun⟩ := runOn_bind_eq_ok.1 hrun
        cases hrun
        rw [← List.length_append, ← List.append_assoc front] at hrest
        -- The words of the first parameter are now in front of those that are left.
        refine .cons (readAs_liftFlat head hv) (ih (front ++ w₁) hfrest ?_ hmore ho.after
          (show b₂.length ≤ m.size by omega) hrest)
        exact tail'.frame (fun _ _ => SameOn.refl m) (Nat.le_refl _)

/-- What the callee takes in is read as what was passed. -/
theorem readRow_liftParams {tail : List Word} (hs : Signed abi sig)
    (hf : FitsRow abi (abi.fieldsOf sig.paramTypes) ns)
    (h : Crossed abi m sig.paramTypes ns sig.paramArea ws bs) (ho : m.Owns bs)
    (hb : bs.length ≤ m.size)
    (hrun : runOn (abi.liftParams sig (ws ++ tail)) m = (.ok vs, m')) :
    ReadRow abi (sig.paramTypes.map abi.shape) ns vs := by
  rw [liftParams] at hrun
  obtain ⟨_, -, hrun⟩ := runOn_bind_liftM_eq_ok.1 hrun
  generalize sig.paramArea = area at h hrun
  cases h with
  | words carried =>
    cases carried with
    | product row => exact readRow_liftParamWords [] tail hf row hs.params ho hb hrun
  | @area area start bs start_lt stored =>
    have hnext : (WordReader.ofList ([Word.ofNat start] ++ tail)).next .i32 =
      .ok (start, ⟨1, tail⟩) := WordReader.next_ofNat start_lt
    rw [runOn_bind_liftM hnext] at hrun
    obtain ⟨vs, m₁, hload, hrun⟩ := runOn_bind_eq_ok.1 hrun
    obtain ⟨_, m₂, -, hrun⟩ := runOn_bind_eq_ok.1 hrun
    obtain ⟨_, m₃, -, hrun⟩ := runOn_bind_eq_ok.1 hrun
    cases hrun
    rw [runOn_reading] at hload
    exact readRow_loadFields stored (Prod.mk.inj hload).1

/-- What the caller gets is read as what was returned. -/
theorem readRow_liftResults {call : LoweredCall} (hs : Signed abi sig)
    (h : Returned abi m sig.resultTypes ns sig.returnArea call.returnArea ws bs)
    (hrun : runOn (abi.liftResults sig call ws) m = (.ok vs, m')) :
    ReadRow abi (sig.resultTypes.map abi.shape) ns vs := by
  have hsingle := hs.single
  unfold liftResults at hrun
  generalize sig.returnArea = area at h hsingle
  generalize call.returnArea = start? at h hrun
  generalize sig.resultTypes = ids at h hrun hsingle
  cases h with
  | words carried =>
    match ids, hsingle rfl with
    | [], _ =>
      obtain ⟨rfl, -⟩ := carried_tupleOf_nil carried
      cases hrun
      exact .nil
    | [id], _ =>
      obtain ⟨n, rfl, hcarried⟩ := carried_tupleOf_singleton carried
      obtain ⟨v, m₁, hlift, hrun⟩ := runOn_bind_eq_ok.1 hrun
      cases hrun
      rw [runOn_reading] at hlift
      exact .cons (readAs_liftFlat hcarried (Prod.mk.inj hlift).1) .nil
  | area stored =>
    rw [runOn_reading] at hrun
    exact readRow_loadFields stored (Prod.mk.inj hrun).1

end Abi

end ComponentAbi
