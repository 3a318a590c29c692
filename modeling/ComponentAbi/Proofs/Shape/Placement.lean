import ComponentAbi.Proofs.Except
import ComponentAbi.Proofs.Memory.Growth
import ComponentAbi.Shape.Layout

/-!
# Parts in their places

The parts of a stored value do not overlap and stay inside the area of the whole. `Shape.Placed`
says so of a row of shapes with their addresses: each starts where the one before it has ended.

* `Shape.placed_row` : the fields of a product, at their offsets;
* `Shape.placed_slots` : the items of a list, one after the other;
* `Shape.payload_inside` : the case index and the payload of a sum;
* `Shape.size_pos_of_ownsMemory` : only types that take up room own memory;
* `Shape.exists_layout_iff` : the types that are laid out are those that are passed as words.
-/

namespace ComponentAbi

namespace Layout

theorem le_maxAlign (least : Nat) (ls : List Layout) : least ≤ maxAlign least ls := by
  unfold maxAlign
  induction ls generalizing least with
  | nil => exact Nat.le_refl _
  | cons l ls ih => exact Nat.le_trans (Nat.le_max_left _ _) (ih _)

theorem maxAlign_le {least bound : Nat} {ls : List Layout} (hl : least ≤ bound)
    (h : ∀ l ∈ ls, l.align ≤ bound) : maxAlign least ls ≤ bound := by
  unfold maxAlign
  induction ls generalizing least with
  | nil => exact hl
  | cons l ls ih =>
    refine ih (Nat.max_le.2 ⟨hl, h l List.mem_cons_self⟩) fun l hm => ?_
    exact h l (List.mem_cons_of_mem _ hm)

theorem le_foldl_max (size : Nat) (ls : List Layout) :
    size ≤ ls.foldl (fun size l => max size l.size) size := by
  induction ls generalizing size with
  | nil => exact Nat.le_refl _
  | cons l ls ih => exact Nat.le_trans (Nat.le_max_left _ _) (ih _)

theorem size_le_maxSize {ls : List Layout} {l : Layout} (h : l ∈ ls) : l.size ≤ maxSize ls := by
  unfold maxSize
  generalize 0 = least
  induction ls generalizing least with
  | nil => cases h
  | cons l' ls ih =>
    rcases List.mem_cons.1 h with rfl | h
    · exact Nat.le_trans (Nat.le_max_right _ _) (le_foldl_max _ _)
    · exact ih h _

end Layout

namespace Shape

theorem discriminantSize_pos (kind : SumKind) : 0 < kind.discriminantSize := by
  cases kind <;> exact Nat.zero_lt_succ _

variable {s : Shape} {l : Layout} {fields : List (String × Shape)} {lo hi p : Nat}

theorem align_pos (h : s.layout = .ok l) : 0 < l.align := by
  cases s with
  | leaf lf =>
    obtain ⟨_, -, rfl⟩ := Except.map_eq_ok.1 (layout.eq_1 lf ▸ h)
    cases lf with
    | scalar s => cases s <;> decide
    | enum | flags | own | borrow => exact Nat.zero_lt_succ 3
  | string => cases h; decide
  | list => cases h; decide
  | product kind fields =>
    rw [layout] at h
    obtain ⟨ls, -, rfl⟩ := Except.map_eq_ok.1 h
    exact Layout.le_maxAlign 1 ls
  | sum kind cases =>
    rw [layout] at h
    obtain ⟨ls, -, rfl⟩ := Except.map_eq_ok.1 h
    have := Layout.le_maxAlign kind.discriminantSize ls
    have : 0 < kind.discriminantSize := discriminantSize_pos kind
    change 0 < Layout.maxAlign kind.discriminantSize ls
    omega
  | unsupported => rw [layout] at h; cases h
  | unresolved => rw [layout] at h; cases h

mutual

/-- No type is aligned to more than eight bytes. -/
theorem align_le : (s : Shape) → {l : Layout} → s.layout = .ok l → l.align ≤ 8
  | leaf lf, _, h => by
    obtain ⟨_, -, rfl⟩ := Except.map_eq_ok.1 (layout.eq_1 lf ▸ h)
    cases lf with
    | scalar s => cases s <;> decide
    | enum | flags | own | borrow => exact Nat.le_of_ble_eq_true rfl
  | string, _, h => by cases h; decide
  | list _, _, h => by cases h; decide
  | product kind fields, l, h => by
    rw [layout] at h
    obtain ⟨ls, hls, rfl⟩ := Except.map_eq_ok.1 h
    exact Layout.maxAlign_le (Nat.le_of_ble_eq_true rfl) (fieldAligns_le fields hls)
  | sum kind cases, l, h => by
    rw [layout] at h
    obtain ⟨ls, hls, rfl⟩ := Except.map_eq_ok.1 h
    refine Layout.maxAlign_le ?_ (payloadAligns_le cases hls)
    cases kind <;> exact Nat.le_of_ble_eq_true rfl
  | unsupported .., _, h => by rw [layout] at h; cases h
  | unresolved _, _, h => by rw [layout] at h; cases h
termination_by structural s => s

theorem fieldAligns_le : (fields : List (String × Shape)) → {ls : List Layout} →
    fieldLayouts fields = .ok ls → ∀ l ∈ ls, l.align ≤ 8
  | [], _, h => by cases h; exact fun l hm => absurd hm List.not_mem_nil
  | (_, s) :: fields, _, h => by
    rw [fieldLayouts] at h
    obtain ⟨l, hl, h⟩ := Except.bind_eq_ok.1 h
    obtain ⟨ls, hls, h⟩ := Except.bind_eq_ok.1 h
    cases h
    exact List.forall_mem_cons.2 ⟨align_le s hl, fieldAligns_le fields hls⟩
termination_by structural fields => fields

theorem payloadAligns_le : (cases : List (String × Option Shape)) → {ls : List Layout} →
    payloadLayouts cases = .ok ls → ∀ l ∈ ls, l.align ≤ 8
  | [], _, h => by cases h; exact fun l hm => absurd hm List.not_mem_nil
  | (_, none) :: cases, _, h => payloadAligns_le cases h
  | (_, some s) :: cases, _, h => by
    rw [payloadLayouts] at h
    obtain ⟨l, hl, h⟩ := Except.bind_eq_ok.1 h
    obtain ⟨ls, hls, h⟩ := Except.bind_eq_ok.1 h
    cases h
    exact List.forall_mem_cons.2 ⟨align_le s hl, payloadAligns_le cases hls⟩
termination_by structural cases => cases

end

/-! ### Rows -/

/-- The shapes are stored at their addresses between `lo` and `hi`, and none starts before the one
before it has ended. -/
def Placed : Nat → Nat → List (Shape × Nat) → Prop
  | lo, hi, [] => lo ≤ hi
  | lo, hi, (s, p) :: rest => ∃ l, s.layout = .ok l ∧ lo ≤ p ∧ Placed (p + l.size) hi rest

/-- Fields with the addresses they are stored at in an area that starts at `p`. -/
def row (fields : List (String × Shape)) (offsets : List Nat) (p : Nat) : List (Shape × Nat) :=
  (fields.zip offsets).map fun (field, offset) => (field.2, p + offset)

/-- `count` items of a list from the one with index `first` on, with the addresses they are stored
at. -/
def slots (s : Shape) (start size first : Nat) : Nat → List (Shape × Nat)
  | 0 => []
  | count + 1 => (s, start + first * size) :: slots s start size (first + 1) count

theorem Placed.le {places : List (Shape × Nat)} (h : Placed lo hi places) : lo ≤ hi := by
  induction places generalizing lo with
  | nil => exact h
  | cons place rest ih =>
    obtain ⟨l, -, hp, hr⟩ := h
    have := ih hr
    omega

theorem Placed.mono {places : List (Shape × Nat)} {lo' hi' : Nat} (h : Placed lo hi places)
    (hl : lo' ≤ lo) (hh : hi ≤ hi') : Placed lo' hi' places := by
  induction places generalizing lo lo' with
  | nil =>
    have : lo ≤ hi := h
    change lo' ≤ hi'
    omega
  | cons place rest ih =>
    obtain ⟨l, hs, hp, hr⟩ := h
    exact ⟨l, hs, Nat.le_trans hl hp, ih hr (Nat.le_refl _)⟩

theorem placed_slots (hs : s.layout = .ok l) (start first count : Nat) :
    Placed (start + first * l.size) (start + (first + count) * l.size)
      (slots s start l.size first count) := by
  induction count generalizing first with
  | zero => exact Nat.le_refl _
  | succ count ih =>
    have hnext := ih (first + 1)
    rw [Nat.add_mul first 1, Nat.one_mul, ← Nat.add_assoc] at hnext
    rw [show first + (count + 1) = first + 1 + count by omega]
    exact ⟨l, hs, Nat.le_refl _, hnext⟩

theorem fieldLayouts_cons {label : String} {ls : List Layout}
    (h : fieldLayouts ((label, s) :: fields) = .ok ls) :
    ∃ l ls', s.layout = .ok l ∧ fieldLayouts fields = .ok ls' ∧ ls = l :: ls' := by
  rw [fieldLayouts] at h
  obtain ⟨l, hl, h⟩ := Except.bind_eq_ok.1 h
  obtain ⟨ls', hls, h⟩ := Except.bind_eq_ok.1 h
  exact ⟨l, ls', hl, hls, (Except.ok.inj h).symm⟩

theorem length_offsetsFrom (ls : List Layout) (start : Nat) :
    (Layout.offsetsFrom start ls).length = ls.length := by
  induction ls generalizing start with
  | nil => rfl
  | cons l ls ih => rw [Layout.offsetsFrom, List.length_cons, List.length_cons, ih]

theorem length_fieldLayouts {fields : List (String × Shape)} {ls : List Layout}
    (h : fieldLayouts fields = .ok ls) : ls.length = fields.length := by
  induction fields generalizing ls with
  | nil => cases h; rfl
  | cons field fields ih =>
    obtain ⟨l, ls, -, hrest, rfl⟩ := fieldLayouts_cons h
    rw [List.length_cons, List.length_cons, ih hrest]

theorem length_fieldOffsets {fields : List (String × Shape)} {offsets : List Nat}
    (h : fieldOffsets fields = .ok offsets) : offsets.length = fields.length := by
  obtain ⟨ls, hls, rfl⟩ := Except.map_eq_ok.1 h
  rw [Layout.offsets, length_offsetsFrom, length_fieldLayouts hls]

theorem placed_row {ls : List Layout} (h : fieldLayouts fields = .ok ls) (p offset : Nat) :
    Placed (p + offset) (p + Layout.endFrom offset ls)
      (row fields (Layout.offsetsFrom offset ls) p) := by
  induction fields generalizing ls offset with
  | nil =>
    cases h
    exact Nat.le_refl _
  | cons field fields ih =>
    obtain ⟨label, s⟩ := field
    obtain ⟨l, ls, hl, hls, rfl⟩ := fieldLayouts_cons h
    have hle := Memory.le_alignUp offset (align_pos hl)
    refine ⟨l, hl, Nat.add_le_add_left hle p, ?_⟩
    rw [Nat.add_assoc]
    exact ih hls _

/-- The fields of a product are placed in its area. -/
theorem placed_fields {kind : ProductKind} {offsets : List Nat}
    (ho : fieldOffsets fields = .ok offsets) (hl : (product kind fields).layout = .ok l) (p : Nat) :
    Placed p (p + l.size) (row fields offsets p) := by
  obtain ⟨ls, hls, rfl⟩ := Except.map_eq_ok.1 ho
  rw [layout, hls] at hl
  cases hl
  refine (placed_row hls p 0).mono (Nat.le_refl _) (Nat.add_le_add_left ?_ p)
  exact Memory.le_alignUp _ (Layout.le_maxAlign 1 ls)

/-! ### Sums -/

theorem payloadLayouts_mem {cases : List (String × Option Shape)} {label : String}
    {ls : List Layout} (h : payloadLayouts cases = .ok ls) (hm : (label, some s) ∈ cases) :
    ∃ l ∈ ls, s.layout = .ok l := by
  induction cases generalizing ls with
  | nil => cases hm
  | cons case cases ih =>
    obtain ⟨other, payload⟩ := case
    cases payload with
    | none =>
      rw [payloadLayouts] at h
      refine ih h ((List.mem_cons.1 hm).resolve_left fun he => ?_)
      cases he
    | some payload =>
      rw [payloadLayouts] at h
      obtain ⟨l, hl, h⟩ := Except.bind_eq_ok.1 h
      obtain ⟨ls', hls, h⟩ := Except.bind_eq_ok.1 h
      cases h
      rcases List.mem_cons.1 hm with he | hm
      · cases he
        exact ⟨l, List.mem_cons_self, hl⟩
      · obtain ⟨l', hm', hl'⟩ := ih hls hm
        exact ⟨l', List.mem_cons_of_mem _ hm', hl'⟩

/-- The layout of a sum is that of the placement of its parts. -/
theorem layout_sum {kind : SumKind} {cases : List (String × Option Shape)} {sl : SumLayout}
    (h : sumLayout kind cases = .ok sl) : (sum kind cases).layout = .ok sl.layout := by
  obtain ⟨ls, hls, rfl⟩ := Except.map_eq_ok.1 h
  rw [layout, hls]
  rfl

/-- The case index comes first, then the payload, and both are inside the area. -/
theorem payload_inside {kind : SumKind} {cases : List (String × Option Shape)} {sl : SumLayout}
    (h : sumLayout kind cases = .ok sl) :
    sl.discriminantSize = kind.discriminantSize ∧ sl.discriminantSize ≤ sl.payloadOffset ∧
      sl.payloadOffset ≤ sl.size ∧ ∀ label s, (label, some s) ∈ cases →
        ∃ l, s.layout = .ok l ∧ sl.payloadOffset + l.size ≤ sl.size := by
  obtain ⟨ls, hls, rfl⟩ := Except.map_eq_ok.1 h
  have halign : 0 < Layout.maxAlign kind.discriminantSize ls :=
    Nat.lt_of_lt_of_le (discriminantSize_pos kind) (Layout.le_maxAlign _ ls)
  have hend := Memory.le_alignUp (alignUp kind.discriminantSize
    (Layout.maxAlign kind.discriminantSize ls) + Layout.maxSize ls) halign
  refine ⟨rfl, Memory.le_alignUp _ halign, ?_, fun label s hm => ?_⟩
  · simp only [Layout.tagged]
    omega
  · obtain ⟨l, hml, hl⟩ := payloadLayouts_mem hls hm
    have := Layout.size_le_maxSize hml
    refine ⟨l, hl, ?_⟩
    simp only [Layout.tagged]
    omega

/-! ### Types that own memory -/

mutual

/-- Only types that take up room own memory. -/
theorem size_pos_of_ownsMemory : (s : Shape) → {l : Layout} → s.ownsMemory = true →
    s.layout = .ok l → 0 < l.size
  | leaf _, _, ho, _ => by cases ho
  | string, _, _, hl => by cases hl; exact Nat.zero_lt_succ 7
  | list _, _, _, hl => by cases hl; exact Nat.zero_lt_succ 7
  | product kind fields, l, ho, hl => by
    rw [layout] at hl
    obtain ⟨ls, hls, rfl⟩ := Except.map_eq_ok.1 hl
    have hend := Memory.le_alignUp (Layout.endFrom 0 ls) (Layout.le_maxAlign 1 ls)
    have := room_of_fieldsOwnMemory fields ho hls 0
    change 0 < alignUp (Layout.endFrom 0 ls) (Layout.maxAlign 1 ls)
    omega
  | sum kind cases, l, _, hl => by
    rw [layout] at hl
    obtain ⟨ls, hls, rfl⟩ := Except.map_eq_ok.1 hl
    have hs : sumLayout kind cases = .ok (Layout.tagged kind.discriminantSize ls) := by
      rw [sumLayout, hls]
      rfl
    obtain ⟨he, h₁, h₂, -⟩ := payload_inside hs
    have := discriminantSize_pos kind
    change 0 < (Layout.tagged kind.discriminantSize ls).size
    omega
  | unsupported .., _, ho, _ => by cases ho
  | unresolved _, _, ho, _ => by cases ho
termination_by structural s => s

theorem room_of_fieldsOwnMemory : (fields : List (String × Shape)) → {ls : List Layout} →
    fieldsOwnMemory fields = true → fieldLayouts fields = .ok ls → (offset : Nat) →
    offset < Layout.endFrom offset ls
  | [], _, ho, _, _ => by cases ho
  | (_, s) :: fields, _, ho, hls, offset => by
    obtain ⟨l, ls, hl, hrest, rfl⟩ := fieldLayouts_cons hls
    have hle := Memory.le_alignUp offset (align_pos hl)
    have hlast := (placed_row hrest 0 (alignUp offset l.align + l.size)).le
    rw [fieldsOwnMemory, Bool.or_eq_true] at ho
    rcases ho with ho | ho
    · have := size_pos_of_ownsMemory s ho hl
      rw [Layout.endFrom]
      omega
    · have := room_of_fieldsOwnMemory fields ho hrest (alignUp offset l.align + l.size)
      rw [Layout.endFrom]
      omega
termination_by structural fields => fields

end

/-! ### Types that own no memory -/

theorem fieldsOwnMemory_eq_false {fields : List (String × Shape)} :
    fieldsOwnMemory fields = false ↔ ∀ field ∈ fields, field.2.ownsMemory = false := by
  induction fields with
  | nil => simp [fieldsOwnMemory]
  | cons field fields ih =>
    rw [fieldsOwnMemory, Bool.or_eq_false_iff, ih, List.forall_mem_cons]

theorem casesOwnMemory_eq_false {cases : List (String × Option Shape)} :
    casesOwnMemory cases = false ↔ ∀ label s, (label, some s) ∈ cases → s.ownsMemory = false := by
  induction cases with
  | nil => simp [casesOwnMemory]
  | cons case cases ih =>
    obtain ⟨other, payload⟩ := case
    cases payload with
    | none =>
      rw [casesOwnMemory, ih]
      refine ⟨fun h label s hm => h label s ?_, fun h label s hm => h label s (.tail _ hm)⟩
      exact (List.mem_cons.1 hm).resolve_left fun he => by cases he
    | some payload =>
      rw [casesOwnMemory, Bool.or_eq_false_iff, ih]
      constructor
      · rintro ⟨hp, h⟩ label s hm
        rcases List.mem_cons.1 hm with he | hm
        · cases he
          exact hp
        · exact h label s hm
      · exact fun h =>
          ⟨h other payload List.mem_cons_self, fun label s hm => h label s (.tail _ hm)⟩

/-! ### Layout and words -/

mutual

/-- A type has a layout in memory exactly if it has core words. -/
theorem exists_layout_iff :
    (s : Shape) → ((∃ l, s.layout = .ok l) ↔ ∃ kinds, s.flatten = .ok kinds)
  | leaf l => by
    rw [layout, flatten, Except.exists_map_eq_ok, Except.exists_map_eq_ok]
  | string | list _ => ⟨fun _ => ⟨_, rfl⟩, fun _ => ⟨_, rfl⟩⟩
  | product kind fields => by
    rw [layout, flatten, Except.exists_map_eq_ok, exists_fieldLayouts_iff fields]
  | sum kind cases => by
    rw [layout, flatten, Except.exists_map_eq_ok, Except.exists_map_eq_ok,
      exists_payloadLayouts_iff cases]
  | unsupported kind title => ⟨fun ⟨_, h⟩ => (nomatch h), fun ⟨_, h⟩ => (nomatch h)⟩
  | unresolved cause => ⟨fun ⟨_, h⟩ => (nomatch h), fun ⟨_, h⟩ => (nomatch h)⟩
termination_by structural s => s

theorem exists_fieldLayouts_iff : (fields : List (String × Shape)) →
    ((∃ ls, fieldLayouts fields = .ok ls) ↔ ∃ kinds, flattenFields fields = .ok kinds)
  | [] => ⟨fun _ => ⟨_, rfl⟩, fun _ => ⟨_, rfl⟩⟩
  | (_, field) :: rest => by
    rw [fieldLayouts, flattenFields, Except.exists_both_eq_ok, Except.exists_both_eq_ok,
      exists_layout_iff field, exists_fieldLayouts_iff rest]
termination_by structural fields => fields

theorem exists_payloadLayouts_iff : (cases : List (String × Option Shape)) →
    ((∃ ls, payloadLayouts cases = .ok ls) ↔ ∃ slots, flattenCases cases = .ok slots)
  | [] => ⟨fun _ => ⟨_, rfl⟩, fun _ => ⟨_, rfl⟩⟩
  | (_, none) :: rest => by
    rw [payloadLayouts, flattenCases, exists_payloadLayouts_iff rest]
  | (_, some payload) :: rest => by
    rw [payloadLayouts, flattenCases, Except.exists_both_eq_ok, Except.exists_both_eq_ok,
      exists_layout_iff payload, exists_payloadLayouts_iff rest]
termination_by structural cases => cases

end

/-- Where the payloads have joined words, each of them has words. -/
theorem exists_flatten_case {cases : List (String × Option Shape)} {slots : List CoreType}
    {label : String} (h : flattenCases cases = .ok slots) (hm : (label, some s) ∈ cases) :
    ∃ kinds, s.flatten = .ok kinds := by
  obtain ⟨ls, hls⟩ := (exists_payloadLayouts_iff cases).2 ⟨slots, h⟩
  obtain ⟨l, -, hl⟩ := payloadLayouts_mem hls hm
  exact (exists_layout_iff s).1 ⟨l, hl⟩

end Shape

end ComponentAbi
