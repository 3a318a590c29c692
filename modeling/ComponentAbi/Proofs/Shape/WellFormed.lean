import ComponentAbi.Proofs.Shape.Placement
import ComponentAbi.Proofs.Shape.Unfold
import ComponentAbi.TypeSearch

/-!
# Well-formed layouts

Alignments are those of words: powers of two up to eight. So of any two of them the smaller one
divides the greater one, and whatever starts at a multiple of the greater one is aligned for both.

* `Shape.wellFormed_layout` : the size of a type is a multiple of its alignment;
* `Layout.arranged_offsetsFrom` : fields in a row start behind one another, each at the next address
  that is aligned for it;
* `SumLayout.Fits` : the case index and a payload behind it, which is aligned in every case;
* `Abi.unfold_eq` : a type that has a layout is unfolded alike wherever it occurs, so that the
  layout of a type is made of those of its parts (`Abi.layouts_well_formed`).
-/

namespace ComponentAbi

/-! ### Alignments -/

/-- An alignment that words can have. -/
def Aligning (align : Nat) : Prop :=
  ∃ k : Nat, k ≤ 3 ∧ align = 2 ^ k

namespace Aligning

variable {a b : Nat}

theorem pos (h : Aligning a) : 0 < a := by
  obtain ⟨k, -, rfl⟩ := h
  exact Nat.two_pow_pos k

theorem dvd_of_le (ha : Aligning a) (hb : Aligning b) (hle : a ≤ b) : a ∣ b := by
  obtain ⟨j, -, rfl⟩ := ha
  obtain ⟨k, -, rfl⟩ := hb
  exact Nat.pow_dvd_pow 2 ((Nat.pow_le_pow_iff_right Nat.one_lt_two).1 hle)

theorem max (ha : Aligning a) (hb : Aligning b) : Aligning (max a b) := by
  rcases Nat.le_total a b with h | h
  · rwa [Nat.max_eq_right h]
  · rwa [Nat.max_eq_left h]

theorem dvd_alignUp (h : Aligning a) (value : Nat) : a ∣ alignUp value a := by
  obtain ⟨k, -, rfl⟩ := h
  exact two_pow_dvd_alignUp value k

theorem alignUp_lt (h : Aligning a) (value : Nat) : alignUp value a < value + a := by
  obtain ⟨k, -, rfl⟩ := h
  exact alignUp_two_pow_lt value k

end Aligning

theorem aligning_one : Aligning 1 := ⟨0, by decide, rfl⟩

theorem aligning_four : Aligning 4 := ⟨2, by decide, rfl⟩

theorem Leaf.aligning_width (l : Leaf) : Aligning l.width := by
  cases l with
  | scalar s =>
    cases s with
    | bool | u8 | s8 => exact aligning_one
    | u16 | s16 => exact ⟨1, by decide, rfl⟩
    | u32 | s32 | f32 | char => exact aligning_four
    | u64 | s64 | f64 => exact ⟨3, by decide, rfl⟩
  | enum | flags | own | borrow => exact aligning_four

theorem SumKind.aligning_discriminantSize (kind : SumKind) : Aligning kind.discriminantSize := by
  cases kind with
  | option => exact aligning_one
  | result | variant => exact aligning_four

namespace TypeNode

/-- Values of the node are fields in a row. -/
def IsProduct : TypeNode → Prop
  | record .. | tuple _ => True
  | _ => False

/-- Values of the node are a case index, and a payload behind it. -/
def IsSum : TypeNode → Prop
  | option _ | result .. | variant .. => True
  | _ => False

end TypeNode

/-! ### Layouts of parts -/

namespace Layout

/-- The size is a multiple of the alignment, so values in a row are all aligned. -/
structure WellFormed (l : Layout) : Prop where
  /-- The alignment is that of a word. -/
  align : Aligning l.align
  /-- The size is a multiple of it. -/
  dvd : l.align ∣ l.size

/-- A part that starts `offset` bytes behind the start of an area ends inside, and is aligned
wherever the area is. -/
structure Inside (l : Layout) (offset : Nat) (area : Layout) : Prop where
  /-- The part ends inside. -/
  le : offset + l.size ≤ area.size
  /-- It is aligned behind the start. -/
  dvd : l.align ∣ offset
  /-- It is aligned where the area is. -/
  align_dvd : l.align ∣ area.align

/-- An area is inside itself. -/
theorem inside_refl (l : Layout) : l.Inside 0 l :=
  ⟨Nat.le_of_eq (Nat.zero_add l.size), Nat.dvd_zero l.align, Nat.dvd_refl l.align⟩

/-- A part of a part. -/
theorem Inside.trans {l part area : Layout} {offset start : Nat} (h : part.Inside start area)
    (h' : l.Inside offset part) : l.Inside (start + offset) area := by
  refine ⟨?_, ?_, Nat.dvd_trans h'.align_dvd h.align_dvd⟩
  · have := h.le
    have := h'.le
    omega
  · exact (Nat.dvd_add_right (Nat.dvd_trans h'.align_dvd h.dvd)).2 h'.dvd

/-- The parts are in order between `lo` and `hi`, none overlaps with another, and each starts at the
first address behind the part before it that is aligned for it. -/
def Arranged : (lo hi : Nat) → List (Layout × Nat) → Prop
  | lo, hi, [] => lo ≤ hi
  | lo, hi, (l, offset) :: rest =>
    (lo ≤ offset ∧ offset < lo + l.align ∧ l.align ∣ offset) ∧ Arranged (offset + l.size) hi rest

variable {lo hi hi' least : Nat} {ls : List Layout} {l : Layout}

theorem Arranged.mono {places : List (Layout × Nat)} (h : Arranged lo hi places) (hh : hi ≤ hi') :
    Arranged lo hi' places := by
  induction places generalizing lo with
  | nil => exact Nat.le_trans h hh
  | cons place rest ih => exact ⟨h.1, ih h.2⟩

/-- Every part is aligned, and ends inside. -/
theorem Arranged.of_mem {places : List (Layout × Nat)} {offset : Nat}
    (h : Arranged lo hi places) (hm : (l, offset) ∈ places) :
    l.align ∣ offset ∧ offset + l.size ≤ hi := by
  have hle : ∀ {places lo}, Arranged lo hi places → lo ≤ hi := by
    intro places
    induction places with
    | nil => exact id
    | cons place rest ih =>
      intro lo h
      have := ih h.2
      have := h.1.1
      omega
  induction places generalizing lo with
  | nil => cases hm
  | cons place rest ih =>
    rcases List.mem_cons.1 hm with rfl | hm
    · exact ⟨h.1.2.2, hle h.2⟩
    · exact ih h.2 hm

theorem arranged_offsetsFrom (h : ∀ l ∈ ls, Aligning l.align) (lo : Nat) :
    Arranged lo (endFrom lo ls) (ls.zip (offsetsFrom lo ls)) := by
  induction ls generalizing lo with
  | nil => exact Nat.le_refl lo
  | cons l ls ih =>
    obtain ⟨hl, hls⟩ := List.forall_mem_cons.1 h
    exact ⟨⟨Memory.le_alignUp lo hl.pos, hl.alignUp_lt lo, hl.dvd_alignUp lo⟩, ih hls _⟩

theorem align_le_maxAlign (h : l ∈ ls) : l.align ≤ maxAlign least ls := by
  unfold maxAlign
  induction ls generalizing least with
  | nil => cases h
  | cons l' ls ih =>
    rcases List.mem_cons.1 h with rfl | h
    · exact Nat.le_trans (Nat.le_max_right least _) (le_maxAlign _ ls)
    · exact ih h

theorem aligning_maxAlign (hleast : Aligning least) (h : ∀ l ∈ ls, Aligning l.align) :
    Aligning (maxAlign least ls) := by
  unfold maxAlign
  induction ls generalizing least with
  | nil => exact hleast
  | cons l ls ih =>
    obtain ⟨hl, hls⟩ := List.forall_mem_cons.1 h
    exact ih (hleast.max hl) hls

/-- The greatest alignment is a multiple of all of them. -/
theorem align_dvd_maxAlign (hleast : Aligning least) (h : ∀ l ∈ ls, Aligning l.align)
    (hl : l ∈ ls) : l.align ∣ maxAlign least ls :=
  (h l hl).dvd_of_le (aligning_maxAlign hleast h) (align_le_maxAlign hl)

theorem wellFormed_sequence (h : ∀ l ∈ ls, Aligning l.align) : (sequence ls).WellFormed :=
  have hmax := aligning_maxAlign aligning_one h
  ⟨hmax, hmax.dvd_alignUp _⟩

/-- Fields in a row are arranged in their area. -/
theorem arranged_sequence (h : ∀ l ∈ ls, Aligning l.align) :
    Arranged 0 (sequence ls).size (ls.zip (offsets ls)) :=
  (arranged_offsetsFrom h 0).mono
    (Memory.le_alignUp _ (aligning_maxAlign aligning_one h).pos)

/-- Each field in a row is inside the area. -/
theorem inside_sequence {offset : Nat} (h : ∀ l ∈ ls, Aligning l.align)
    (hm : (l, offset) ∈ ls.zip (offsets ls)) : l.Inside offset (sequence ls) := by
  obtain ⟨hdvd, hle⟩ := (arranged_sequence h).of_mem hm
  exact ⟨hle, hdvd, align_dvd_maxAlign aligning_one h (List.of_mem_zip hm).1⟩

end Layout

namespace SumLayout

/-- The case index comes first and is aligned with the whole, and payloads of the given layouts are
aligned behind it and end inside. -/
structure Fits (sl : SumLayout) (payloads : List Layout) : Prop where
  /-- The case index is inside. -/
  index : (⟨sl.discriminantSize, sl.discriminantSize⟩ : Layout).Inside 0 sl.layout
  /-- Payloads start behind the case index. -/
  behind : sl.discriminantSize ≤ sl.payloadOffset
  /-- Each payload is inside. -/
  payload : ∀ l ∈ payloads, l.Inside sl.payloadOffset sl.layout

end SumLayout

namespace Layout

variable {index : Nat} {ls : List Layout}

theorem wellFormed_tagged (hindex : Aligning index) (h : ∀ l ∈ ls, Aligning l.align) :
    (tagged index ls).layout.WellFormed :=
  have hmax := aligning_maxAlign hindex h
  ⟨hmax, hmax.dvd_alignUp _⟩

theorem fits_tagged (hindex : Aligning index) (h : ∀ l ∈ ls, Aligning l.align) :
    (tagged index ls).Fits ls := by
  have hmax := aligning_maxAlign hindex h
  have hend : _ ≤ (tagged index ls).size :=
    Memory.le_alignUp (alignUp index (maxAlign index ls) + maxSize ls) hmax.pos
  have hbehind : index ≤ alignUp index (maxAlign index ls) := Memory.le_alignUp _ hmax.pos
  refine ⟨⟨?_, Nat.dvd_zero _, hindex.dvd_of_le hmax (le_maxAlign index ls)⟩, hbehind,
    fun l hl => ?_⟩
  · rw [Nat.zero_add]
    exact Nat.le_trans (Nat.le_trans hbehind (Nat.le_add_right _ _)) hend
  · have hdvd := align_dvd_maxAlign hindex h hl
    have hsize := size_le_maxSize hl
    refine ⟨Nat.le_trans ?_ hend, Nat.dvd_trans hdvd (hmax.dvd_alignUp index), hdvd⟩
    exact Nat.add_le_add_left hsize _

end Layout

/-! ### Layouts of shapes -/

namespace Shape

theorem fieldLayouts_eq (fields : List (String × Shape)) :
    fieldLayouts fields = (fields.map (·.2)).mapM layout := by
  induction fields with
  | nil => rfl
  | cons field fields ih => rw [fieldLayouts, ih, List.map_cons, List.mapM_cons]

theorem payloadLayouts_eq (cases : List (String × Option Shape)) :
    payloadLayouts cases = (cases.filterMap (·.2)).mapM layout := by
  induction cases with
  | nil => rfl
  | cons case cases ih =>
    obtain ⟨label, payload⟩ := case
    cases payload with
    | none => rw [payloadLayouts, ih, List.filterMap_cons_none rfl]
    | some s =>
      have hcons : ((label, some s) :: cases).filterMap (·.2) = s :: cases.filterMap (·.2) := rfl
      rw [payloadLayouts, ih, hcons, List.mapM_cons]

mutual

theorem wellFormed_layout : (s : Shape) → {l : Layout} → s.layout = .ok l → l.WellFormed
  | leaf lf, _, h => by
    obtain ⟨_, -, rfl⟩ := Except.map_eq_ok.1 (layout.eq_1 lf ▸ h)
    exact ⟨lf.aligning_width, Nat.dvd_refl _⟩
  | string, _, h => by cases h; exact ⟨aligning_four, by decide⟩
  | list _, _, h => by cases h; exact ⟨aligning_four, by decide⟩
  | product _ fields, _, h => by
    rw [layout] at h
    obtain ⟨ls, hls, rfl⟩ := Except.map_eq_ok.1 h
    exact Layout.wellFormed_sequence (aligning_fields fields hls)
  | sum kind cases, _, h => by
    rw [layout] at h
    obtain ⟨ls, hls, rfl⟩ := Except.map_eq_ok.1 h
    exact Layout.wellFormed_tagged kind.aligning_discriminantSize (aligning_payloads cases hls)
  | unsupported .., _, h => by rw [layout] at h; cases h
  | unresolved _, _, h => by rw [layout] at h; cases h
termination_by structural s => s

theorem aligning_fields : (fields : List (String × Shape)) → {ls : List Layout} →
    fieldLayouts fields = .ok ls → ∀ l ∈ ls, Aligning l.align
  | [], _, h => by cases h; exact fun l hm => absurd hm List.not_mem_nil
  | (_, s) :: fields, _, h => by
    obtain ⟨l, ls, hl, hls, rfl⟩ := fieldLayouts_cons h
    exact List.forall_mem_cons.2 ⟨(wellFormed_layout s hl).align, aligning_fields fields hls⟩
termination_by structural fields => fields

theorem aligning_payloads : (cases : List (String × Option Shape)) → {ls : List Layout} →
    payloadLayouts cases = .ok ls → ∀ l ∈ ls, Aligning l.align
  | [], _, h => by cases h; exact fun l hm => absurd hm List.not_mem_nil
  | (_, none) :: cases, _, h => aligning_payloads cases h
  | (_, some s) :: cases, _, h => by
    rw [payloadLayouts] at h
    obtain ⟨l, hl, h⟩ := Except.bind_eq_ok.1 h
    obtain ⟨ls, hls, h⟩ := Except.bind_eq_ok.1 h
    cases h
    exact List.forall_mem_cons.2 ⟨(wellFormed_layout s hl).align, aligning_payloads cases hls⟩
termination_by structural cases => cases

end

/-- What is put next to the fields does not move their places. -/
theorem mem_zip_of_mem_zip_zip {α β γ : Type} {xs : List α} {ys : List β} {zs : List γ} {x : α}
    {y : β} {z : γ} (h : ((x, y), z) ∈ (xs.zip ys).zip zs) : (x, z) ∈ xs.zip zs := by
  induction xs generalizing ys zs with
  | nil => cases h
  | cons x' xs ih =>
    cases ys with
    | nil => cases h
    | cons y' ys =>
      cases zs with
      | nil => cases h
      | cons z' zs =>
        rcases List.mem_cons.1 h with heq | h
        · cases heq
          exact List.mem_cons_self
        · exact List.mem_cons_of_mem _ (ih h)

/-- Each field has a layout of its own. -/
theorem layout_of_mem_zip {fields : List (String × Shape)} {field : String × Shape}
    {ls : List Layout} {offsets : List Nat} {offset : Nat} (h : fieldLayouts fields = .ok ls)
    (hm : (field, offset) ∈ fields.zip offsets) :
    ∃ l, field.2.layout = .ok l ∧ (l, offset) ∈ ls.zip offsets := by
  induction fields generalizing ls offsets with
  | nil => cases hm
  | cons first fields ih =>
    obtain ⟨l, ls, hl, hls, rfl⟩ := fieldLayouts_cons h
    cases offsets with
    | nil => cases hm
    | cons o offsets =>
      rcases List.mem_cons.1 hm with heq | hm
      · cases heq
        exact ⟨l, hl, List.mem_cons_self⟩
      · obtain ⟨l', hl', hm'⟩ := ih hls hm
        exact ⟨l', hl', List.mem_cons_of_mem _ hm'⟩

/-- The parts of a sum are in their places. -/
theorem fits_sumLayout {kind : SumKind} {cases : List (String × Option Shape)} {sl : SumLayout}
    {ls : List Layout} (h : sumLayout kind cases = .ok sl) (hls : payloadLayouts cases = .ok ls) :
    sl.Fits ls := by
  rw [sumLayout, hls] at h
  cases h
  exact Layout.fits_tagged kind.aligning_discriminantSize (aligning_payloads cases hls)

/-! ### Nodes -/

variable (inner : TypeId → Shape) {inner' : TypeId → Shape} {node : TypeNode}

/-- The fields of a record or a tuple have the shapes of its components. -/
theorem ofNode_product (h : node.IsProduct) : ∃ kind fields,
    ofNode inner node = product kind fields ∧ fields.map (·.2) = node.components.map inner := by
  cases node with
  | tuple elements => exact ⟨_, _, rfl, by simp [TypeNode.components, Function.comp_def]⟩
  | record name fields => exact ⟨_, _, rfl, by simp [TypeNode.components, Function.comp_def]⟩
  | _ => cases h

/-- The payloads of an option, a result or a variant have the shapes of its components. -/
theorem ofNode_sum (h : node.IsSum) : ∃ kind cases,
    ofNode inner node = sum kind cases ∧ cases.filterMap (·.2) = node.components.map inner := by
  cases node with
  | option payload => exact ⟨_, _, rfl, rfl⟩
  | result ok err => exact ⟨_, _, rfl, by cases ok <;> cases err <;> rfl⟩
  | variant name cases =>
    refine ⟨_, _, rfl, ?_⟩
    rw [TypeNode.components, List.filterMap_map, List.map_filterMap]
    rfl
  | _ => cases h

variable {inner}

/-- Nodes are unfolded alike if their components are. The elements of a list are not unfolded. -/
theorem ofNode_congr
    (h : node.IsProduct ∨ node.IsSum → ∀ part ∈ node.components, inner part = inner' part) :
    ofNode inner node = ofNode inner' node := by
  cases node with
  | tuple elements =>
    have h := h (.inl trivial)
    exact congrArg (product .tuple) (List.map_congr_left fun e he => by rw [h e he])
  | record name fields =>
    have h := h (.inl trivial)
    refine congrArg (product (.record name)) (List.map_congr_left fun (label, f) hf => ?_)
    exact congrArg (Prod.mk label) (h f (List.mem_map_of_mem hf))
  | option payload => rw [ofNode, ofNode, h (.inr trivial) payload List.mem_cons_self]
  | result ok err =>
    have h := h (.inr trivial)
    have hok : ok.map inner = ok.map inner' :=
      Option.map_congr fun part hp => h part (List.mem_append_left _ (by simp [hp]))
    have herr : err.map inner = err.map inner' :=
      Option.map_congr fun part hp => h part (List.mem_append_right _ (by simp [hp]))
    rw [ofNode, ofNode, hok, herr]
  | variant name cases =>
    have h := h (.inr trivial)
    refine congrArg (sum (.variant name)) (List.map_congr_left fun (label, payload) hc => ?_)
    exact congrArg (Prod.mk label)
      (Option.map_congr fun part hp => h part (List.mem_filterMap.2 ⟨_, hc, hp⟩))
  | _ => rfl

/-- Where a node has a layout, its components have layouts. -/
theorem exists_layout_component {l : Layout} (hnode : node.IsProduct ∨ node.IsSum)
    (h : (ofNode inner node).layout = .ok l) :
    ∀ part ∈ node.components, ∃ l, (inner part).layout = .ok l := by
  suffices ∃ ls, (node.components.map inner).mapM layout = .ok ls by
    obtain ⟨ls, hls⟩ := this
    intro part hpart
    obtain ⟨l, -, hl⟩ := Except.exists_mem_of_mem_mapM hls (List.mem_map_of_mem hpart)
    exact ⟨l, hl⟩
  rcases hnode with hnode | hnode
  · obtain ⟨kind, fields, heq, hparts⟩ := ofNode_product inner hnode
    rw [heq, layout] at h
    obtain ⟨ls, hls, -⟩ := Except.map_eq_ok.1 h
    exact ⟨ls, by rw [← hparts, ← fieldLayouts_eq, hls]⟩
  · obtain ⟨kind, cases, heq, hparts⟩ := ofNode_sum inner hnode
    rw [heq, layout] at h
    obtain ⟨ls, hls, -⟩ := Except.map_eq_ok.1 h
    exact ⟨ls, by rw [← hparts, ← payloadLayouts_eq, hls]⟩

end Shape

/-! ### Types -/

namespace Abi

variable {abi : Abi} {id resolved : TypeId} {node : TypeNode} {l : Layout}

/-- A type that has a layout within a path has the same shape within fewer types. -/
theorem unfold_eq {d d' : Nat} {path path' : List TypeId} (hd : d ≤ d') (hp : path' ⊆ path)
    (h : (abi.unfold d path id).layout = .ok l) :
    abi.unfold d' path' id = abi.unfold d path id := by
  induction d generalizing d' path path' id l with
  | zero => rw [unfold, Shape.layout] at h; cases h
  | succ d ih =>
    obtain ⟨d', rfl⟩ : ∃ n, d' = n + 1 := ⟨d' - 1, by omega⟩
    rw [unfold] at h ⊢
    rw [unfold]
    cases hl : abi.lookup id with
    | error cause => rfl
    | ok target =>
      obtain ⟨resolved, node⟩ := target
      simp only [hl] at h ⊢
      by_cases hm : resolved ∈ path
      · rw [if_pos hm, Shape.layout] at h
        cases h
      · rw [if_neg hm] at h
        rw [if_neg hm, if_neg fun hm' => hm (hp hm')]
        refine Shape.ofNode_congr fun hnode part hpart => ?_
        obtain ⟨lpart, hlpart⟩ := Shape.exists_layout_component hnode h part hpart
        exact ih (Nat.le_of_succ_le_succ hd) (List.cons_subset_cons _ hp) hlpart

/-- The shape of a type that has a layout is made of the shapes of its components. -/
theorem shape_eq_ofNode (h : abi.layout id = .ok l) (hl : abi.lookup id = .ok (resolved, node)) :
    abi.shape id = Shape.ofNode abi.shape node := by
  have hshape : abi.shape id = Shape.ofNode (abi.unfold abi.arena.size [resolved]) node := by
    rw [shape, unfold, hl]
    exact if_neg List.not_mem_nil
  rw [layout, hshape] at h
  rw [hshape]
  refine Shape.ofNode_congr fun hnode part hpart => ?_
  obtain ⟨lpart, hlpart⟩ := Shape.exists_layout_component hnode h part hpart
  exact (unfold_eq (Nat.le_succ _) (List.nil_subset _) hlpart).symm

theorem mapM_layout (ids : List TypeId) :
    ids.mapM abi.layout = (ids.map abi.shape).mapM Shape.layout := by
  rw [List.mapM_map]
  rfl

theorem fieldLayouts_fieldsOf (ids : List TypeId) :
    Shape.fieldLayouts (abi.fieldsOf ids) = ids.mapM abi.layout := by
  rw [Shape.fieldLayouts_eq, mapM_layout, fieldsOf, List.map_map]
  rfl

theorem aligning_mapM_layout {ids : List TypeId} {ls : List Layout}
    (h : ids.mapM abi.layout = .ok ls) : ∀ l ∈ ls, Aligning l.align := by
  intro l hl
  obtain ⟨id, -, hid⟩ := Except.exists_of_mem_mapM h hl
  exact (Shape.wellFormed_layout _ hid).align

/-- A record or a tuple is laid out as its components in a row. -/
theorem sequenceLayout_components (h : abi.layout id = .ok l)
    (hl : abi.lookup id = .ok (resolved, node)) (hnode : node.IsProduct) :
    abi.sequenceLayout node.components = .ok l := by
  obtain ⟨kind, fields, heq, hparts⟩ := Shape.ofNode_product abi.shape hnode
  have h' := h
  rw [layout, shape_eq_ofNode h hl, heq, Shape.layout, Shape.fieldLayouts_eq, hparts,
    ← mapM_layout] at h'
  rw [sequenceLayout, fieldLayouts_fieldsOf, h']

/-- The layout of an option, a result or a variant is the placement of its components. -/
theorem sumLayout_components (h : abi.layout id = .ok l)
    (hl : abi.lookup id = .ok (resolved, node)) (hnode : node.IsSum) :
    ∃ sl ls, abi.sumLayout id = .ok sl ∧ sl.layout = l ∧ node.components.mapM abi.layout = .ok ls ∧
      sl.Fits ls := by
  obtain ⟨kind, cases, heq, hparts⟩ := Shape.ofNode_sum abi.shape hnode
  have hshape := (shape_eq_ofNode h hl).trans heq
  rw [layout, hshape, Shape.layout] at h
  obtain ⟨ls, hls, rfl⟩ := Except.map_eq_ok.1 h
  have hsum : Shape.sumLayout kind cases = .ok (Layout.tagged kind.discriminantSize ls) := by
    rw [Shape.sumLayout, hls]
    rfl
  refine ⟨_, ls, ?_, rfl, ?_, Shape.fits_sumLayout hsum hls⟩
  · rw [sumLayout, hshape]
    exact hsum
  · rw [mapM_layout, ← hparts, ← Shape.payloadLayouts_eq, hls]

/-- Types are aligned as words and their sizes are multiples of their alignments. Fields in a row
are in order, and each is at the next address that is aligned for it. The payloads of a sum are
aligned behind its case index, and end inside it. -/
theorem layouts_well_formed (abi : Abi) :
    (∀ id l, abi.layout id = .ok l →
      l.WellFormed ∧
      ∀ resolved node, abi.lookup id = .ok (resolved, node) →
        (node.IsProduct → abi.sequenceLayout node.components = .ok l) ∧
        (node.IsSum → ∃ sl ls, abi.sumLayout id = .ok sl ∧ sl.layout = l ∧
          node.components.mapM abi.layout = .ok ls ∧ sl.Fits ls)) ∧
    ∀ ids area, abi.sequenceLayout ids = .ok area →
      area.WellFormed ∧
      ∃ ls offsets, ids.mapM abi.layout = .ok ls ∧ abi.fieldOffsets ids = .ok offsets ∧
        offsets.length = ls.length ∧ Layout.Arranged 0 area.size (ls.zip offsets) := by
  refine ⟨fun id l h => ⟨Shape.wellFormed_layout _ h, fun resolved node hl =>
    ⟨sequenceLayout_components h hl, sumLayout_components h hl⟩⟩, fun ids area h => ?_⟩
  rw [sequenceLayout, fieldLayouts_fieldsOf] at h
  obtain ⟨ls, hls, rfl⟩ := Except.map_eq_ok.1 h
  have hlen : (Layout.offsets ls).length = ls.length := Shape.length_offsetsFrom ls 0
  have hoffsets : abi.fieldOffsets ids = .ok (Layout.offsets ls) := by
    rw [fieldOffsets, Shape.fieldOffsets, fieldLayouts_fieldsOf, hls]
    rfl
  have halign := aligning_mapM_layout hls
  exact ⟨Layout.wellFormed_sequence halign, ls, _, hls, hoffsets, hlen,
    Layout.arranged_sequence halign⟩

/-- Types of parcels: a byte, a fraction, a short number, a record of all three, and a variant with
the short number or the record as its payload. -/
def parcel : Abi where
  arena := ⟨#[.scalar .u8, .scalar .f64, .scalar .u16,
    .record { name := "bulk" } [("tag", ⟨0⟩), ("weight", ⟨1⟩), ("count", ⟨2⟩)],
    .variant { name := "parcel" } [("empty", none), ("letter", some ⟨2⟩), ("bulk", some ⟨3⟩)]]⟩

theorem layouts_well_formed_parcel :
    (parcel.layout ⟨4⟩ = .ok ⟨32, 8⟩ ∧ (⟨32, 8⟩ : Layout).WellFormed ∧
      ∃ sl ls, parcel.sumLayout ⟨4⟩ = .ok sl ∧ sl.layout = ⟨32, 8⟩ ∧
        [⟨2⟩, ⟨3⟩].mapM parcel.layout = .ok ls ∧ sl.Fits ls) ∧
    parcel.layout ⟨3⟩ = .ok ⟨24, 8⟩ ∧ parcel.sequenceLayout [⟨0⟩, ⟨1⟩, ⟨2⟩] = .ok ⟨24, 8⟩ ∧
      ∃ ls offsets, [⟨0⟩, ⟨1⟩, ⟨2⟩].mapM parcel.layout = .ok ls ∧
        parcel.fieldOffsets [⟨0⟩, ⟨1⟩, ⟨2⟩] = .ok offsets ∧ offsets.length = ls.length ∧
        Layout.Arranged 0 24 (ls.zip offsets) := by
  obtain ⟨htypes, hareas⟩ := layouts_well_formed parcel
  have hparcel : parcel.layout ⟨4⟩ = .ok ⟨32, 8⟩ := rfl
  have hbulk : parcel.layout ⟨3⟩ = .ok ⟨24, 8⟩ := rfl
  obtain ⟨hwell, hsum⟩ := htypes _ _ hparcel
  have hrow := ((htypes _ _ hbulk).2 _ _ rfl).1 trivial
  exact ⟨⟨hparcel, hwell, (hsum _ _ rfl).2 trivial⟩, hbulk, hrow, (hareas _ _ hrow).2⟩

end Abi
end ComponentAbi
