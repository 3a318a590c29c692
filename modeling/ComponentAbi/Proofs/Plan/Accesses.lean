import ComponentAbi.Proofs.Plan.Assignment
import ComponentAbi.Proofs.Shape.WellFormed

/-!
# Memory accesses of plans

A pointer in a plan is the address of an item of a list, of a block that the plan hands out, or of
an area that it is given as a parameter, and each comes with a layout (`FunctionPlan.areas`).

`InBounds given code` says that all words that some instructions load or store are in the areas that
are given or that they make themselves, and aligned wherever these are. It is so of what is
generated for a shape in an area with room for it (`Room`), as the parts of a shape have room in the
room of the whole (`Room.field`, `Room.payload`), and from there of whole plans
(`Abi.plan_accesses_in_bounds`).
-/

namespace ComponentAbi

open Instruction PlanM

/-! ### Accesses and areas -/

/-- A word in memory that is loaded or stored. -/
structure Access where
  /-- The pointer that it is found with. -/
  base : Local
  /-- How many bytes it starts behind what the pointer points to. -/
  offset : Nat
  /-- Number of bytes. -/
  size : Nat

/-- The word is in an area that starts where its pointer points to, and aligned wherever the area
is. -/
structure Access.Within (a : Access) (area : Layout) : Prop where
  /-- It ends inside. -/
  le : a.offset + a.size ≤ area.size
  /-- It is aligned behind the start of the area. -/
  dvd : a.size ∣ a.offset
  /-- It is aligned if the start of the area is. -/
  aligned : ∀ start, area.align ∣ start → a.size ∣ start + a.offset

theorem Layout.Inside.within {offset size : Nat} {area : Layout}
    (h : (⟨size, size⟩ : Layout).Inside offset area) (base : Local) :
    (⟨base, offset, size⟩ : Access).Within area :=
  ⟨h.le, h.dvd, fun _ hs => (Nat.dvd_add_right (Nat.dvd_trans h.align_dvd hs)).2 h.dvd⟩

namespace Instruction

/-- The word in memory that an instruction loads or stores. -/
def access? : Instruction → Option Access
  | load width base offset _ | store width _ base offset => some ⟨base, offset, width.size⟩
  | _ => none

/-- The pointer that an instruction defines, to a block or to an item of a list, with the layout of
what it points to. -/
def areas : Instruction → List (Local × Layout)
  | alloc size align dst => [(dst, ⟨size, align⟩)]
  | listLower _ layout _ _ _ _ addr _ | listLift _ layout _ _ addr _ _ _
  | freeList _ layout _ _ addr _ => [(addr, layout)]
  | _ => []

end Instruction

/-- The pointers that some instructions define, those in their bodies included. -/
def areasIn (code : List Instruction) : List (Local × Layout) :=
  (allNested code).flatMap areas

/-- Every word that some instructions load or store, those in their bodies included, is in one of
the areas that are given or that the instructions make. -/
def InBounds (given : List (Local × Layout)) (code : List Instruction) : Prop :=
  ∀ i ∈ allNested code, ∀ a ∈ i.access?,
    ∃ area, (a.base, area) ∈ given ++ areasIn code ∧ a.Within area

section InBounds

variable {given given' : List (Local × Layout)} {code more : List Instruction} {i : Instruction}

theorem areasIn_append (code more : List Instruction) :
    areasIn (code ++ more) = areasIn code ++ areasIn more := by
  rw [areasIn, allNested_append, List.flatMap_append]
  rfl

theorem InBounds.mono (h : InBounds given code) (hs : given ⊆ given') : InBounds given' code := by
  intro i hi a ha
  obtain ⟨area, hm, hw⟩ := h i hi a ha
  exact ⟨area, List.append_subset.2 ⟨List.subset_append_of_subset_left _ hs,
    List.subset_append_right _ _⟩ hm, hw⟩

theorem inBounds_nil (given : List (Local × Layout)) : InBounds given [] :=
  fun _ hi => absurd hi List.not_mem_nil

/-- What comes later may use the areas made before. -/
theorem InBounds.append (h : InBounds given code) (h' : InBounds (given ++ areasIn code) more) :
    InBounds given (code ++ more) := by
  intro i hi a ha
  rw [areasIn_append, ← List.append_assoc]
  rw [allNested_append] at hi
  rcases List.mem_append.1 hi with hi | hi
  · obtain ⟨area, hm, hw⟩ := h i hi a ha
    exact ⟨area, List.mem_append_left _ hm, hw⟩
  · exact h' i hi a ha

theorem InBounds.append_given (h : InBounds given code) (h' : InBounds given more) :
    InBounds given (code ++ more) :=
  h.append (h'.mono (List.subset_append_left _ _))

theorem inBounds_flatten {codes : List (List Instruction)}
    (h : ∀ code ∈ codes, InBounds given code) : InBounds given codes.flatten := by
  induction codes with
  | nil => exact inBounds_nil given
  | cons code codes ih =>
    obtain ⟨hcode, hcodes⟩ := List.forall_mem_cons.1 h
    exact hcode.append_given (ih hcodes)

theorem allNested_singleton (i : Instruction) :
    allNested [i] = i :: i.bodies.flatMap fun b => allNested b.code := by
  rw [allNested, withNested_eq, allNested, List.append_nil]

/-- An instruction that accesses no memory itself, whose bodies may use the area that it makes. -/
theorem inBounds_bodies (ha : i.access? = none)
    (h : ∀ b ∈ i.bodies, InBounds (given ++ i.areas) b.code) : InBounds given [i] := by
  intro j hj a hja
  rw [allNested_singleton] at hj
  rcases List.mem_cons.1 hj with rfl | hj
  · rw [ha] at hja
    cases hja
  · obtain ⟨b, hb, hj⟩ := List.mem_flatMap.1 hj
    obtain ⟨area, hm, hw⟩ := h b hb j hj a hja
    refine ⟨area, ?_, hw⟩
    have hsub : areasIn b.code ⊆ i.bodies.flatMap fun b => areasIn b.code :=
      fun x hx => List.mem_flatMap.2 ⟨b, hb, hx⟩
    rw [areasIn, allNested_singleton, List.flatMap_cons, List.flatMap_assoc, ← List.append_assoc]
    exact List.append_subset.2 ⟨List.subset_append_left _ _,
      List.subset_append_of_subset_right _ hsub⟩ hm

/-- An instruction without bodies that accesses no memory. -/
theorem inBounds_quiet (ha : i.access? = none) (hb : i.bodies = []) : InBounds given [i] :=
  inBounds_bodies ha fun _ hm => absurd (hb ▸ hm) List.not_mem_nil

/-- An instruction that loads or stores a word. -/
theorem inBounds_access {a : Access} {area : Layout} (ha : i.access? = some a) (hb : i.bodies = [])
    (hm : (a.base, area) ∈ given) (hw : a.Within area) : InBounds given [i] := by
  intro j hj a' ha'
  rw [allNested_singleton, hb] at hj
  obtain rfl := List.mem_singleton.1 hj
  cases ha.symm.trans ha'
  exact ⟨area, List.mem_append_left _ hm, hw⟩

end InBounds

/-! ### Room for shapes -/

/-- There is room for a value of the shape, `offset` bytes behind the start of an area that the
pointer is given for. -/
def Room (given : List (Local × Layout)) (s : Shape) (base : Local) (offset : Nat) : Prop :=
  ∃ l area, s.layout = .ok l ∧ (base, area) ∈ given ∧ l.Inside offset area

section Room

variable {given : List (Local × Layout)} {s : Shape} {base : Local} {offset : Nat}

/-- A word of the value. -/
theorem Room.access {l : Layout} {size start : Nat} {i : Instruction}
    (h : Room given s base offset) (hl : s.layout = .ok l)
    (hin : (⟨size, size⟩ : Layout).Inside start l)
    (ha : i.access? = some ⟨base, offset + start, size⟩) (hb : i.bodies = []) :
    InBounds given [i] := by
  obtain ⟨l', area, hl', hm, hin'⟩ := h
  cases hl.symm.trans hl'
  exact inBounds_access ha hb hm ((hin'.trans hin).within base)

/-- A leaf has room for its word. -/
theorem Room.leaf {l : Leaf} {i : Instruction} {u : Unit} (h : Room given (.leaf l) base offset)
    (hcheck : l.check = .ok u) (ha : i.access? = some ⟨base, offset, l.wordKind.width.size⟩)
    (hb : i.bodies = []) : InBounds given [i] := by
  have hl : (Shape.leaf l).layout = .ok ⟨l.width, l.width⟩ := by
    rw [Shape.layout, hcheck]
    rfl
  rw [← Leaf.size_width] at hl
  exact h.access hl (Layout.inside_refl _) ha hb

/-- A field has room where the product has. -/
theorem Room.field {kind : ProductKind} {fields : List (String × Shape)} {offsets : List Nat}
    {field : String × Shape} {start : Nat} (h : Room given (.product kind fields) base offset)
    (ho : Shape.fieldOffsets fields = .ok offsets) (hm : (field, start) ∈ fields.zip offsets) :
    Room given field.2 base (offset + start) := by
  obtain ⟨l, area, hl, hbase, hin⟩ := h
  obtain ⟨ls, hls, rfl⟩ := Except.map_eq_ok.1 hl
  rw [Shape.fieldOffsets, hls] at ho
  cases ho
  obtain ⟨lfield, hlfield, hzip⟩ := Shape.layout_of_mem_zip hls hm
  exact ⟨lfield, area, hlfield, hbase, hin.trans
    (Layout.inside_sequence (Shape.aligning_fields fields hls) hzip)⟩

variable {kind : SumKind} {cases : List (String × Option Shape)} {sl : SumLayout}

/-- A payload has room where the sum has. -/
theorem Room.payload {label : String} (h : Room given (.sum kind cases) base offset)
    (hsl : Shape.sumLayout kind cases = .ok sl) (hm : (label, some s) ∈ cases) :
    Room given s base (offset + sl.payloadOffset) := by
  obtain ⟨l, area, hl, hbase, hin⟩ := h
  obtain ⟨ls, hls, rfl⟩ := Except.map_eq_ok.1 hsl
  rw [Shape.layout, hls] at hl
  cases hl
  obtain ⟨lcase, hmem, hlcase⟩ := Shape.payloadLayouts_mem hls hm
  exact ⟨lcase, area, hlcase, hbase, hin.trans
    ((Shape.fits_sumLayout hsl hls).payload lcase hmem)⟩

/-- A sum has room for its case index. -/
theorem Room.index {i : Instruction} (h : Room given (.sum kind cases) base offset)
    (hsl : Shape.sumLayout kind cases = .ok sl)
    (ha : i.access? = some ⟨base, offset, (Plan.discriminantWidth sl.discriminantSize).size⟩)
    (hb : i.bodies = []) : InBounds given [i] := by
  obtain ⟨ls, hls, rfl⟩ := Except.map_eq_ok.1 hsl
  have hl : (Shape.sum kind cases).layout =
      .ok (Layout.tagged kind.discriminantSize ls).layout := by
    rw [Shape.layout, hls]
    rfl
  have hwidth : (Plan.discriminantWidth kind.discriminantSize).size = kind.discriminantSize := by
    cases kind <;> rfl
  exact h.access hl (Shape.fits_sumLayout hsl hls).index
    (ha.trans (congrArg (fun size => some (Access.mk base offset size)) hwidth)) hb

/-- A string or a list has room for its address and its length. -/
theorem Room.pair {i j : Instruction} (h : Room given s base offset) (hl : s.layout = .ok ⟨8, 4⟩)
    (hi : i.access? = some ⟨base, offset, 4⟩) (hbi : i.bodies = [])
    (hj : j.access? = some ⟨base, offset + 4, 4⟩) (hbj : j.bodies = []) : InBounds given [i, j] :=
  have hptr : (⟨4, 4⟩ : Layout).Inside 0 ⟨8, 4⟩ := ⟨by decide, by decide, by decide⟩
  have hlen : (⟨4, 4⟩ : Layout).Inside 4 ⟨8, 4⟩ := ⟨by decide, by decide, by decide⟩
  (h.access hl hptr hi hbi).append_given (h.access hl hlen hj hbj)

end Room

/-! ### Several generations -/

namespace PlanM

variable {α β : Type} {P : β → Prop} {xs : List α}

theorem meets_mapM_all {g : α → PlanM β} (h : ∀ x ∈ xs, ∀ k, (g x).Meets k fun b _ => P b)
    (k : Nat) : (xs.mapM g).Meets k fun bs _ => ∀ b ∈ bs, P b := by
  induction xs generalizing k with
  | nil => exact meets_pure (List.forall_mem_nil P)
  | cons x xs ih =>
    obtain ⟨hx, hxs⟩ := List.forall_mem_cons.1 h
    rw [List.mapM_cons]
    exact (hx k).bind fun b k₁ hb => (ih hxs k₁).bind fun bs k' hbs =>
      meets_pure (List.forall_mem_cons.2 ⟨hb, hbs⟩)

theorem meets_filterMapM_all {g : α → PlanM (Option β)}
    (h : ∀ x ∈ xs, ∀ k, (g x).Meets k fun b? _ => ∀ b ∈ b?, P b) (k : Nat) :
    (xs.filterMapM g).Meets k fun bs _ => ∀ b ∈ bs, P b := by
  induction xs generalizing k with
  | nil => exact meets_pure (List.forall_mem_nil P)
  | cons x xs ih =>
    obtain ⟨hx, hxs⟩ := List.forall_mem_cons.1 h
    rw [List.filterMapM_cons]
    refine (hx k).bind fun b? k₁ hb => ?_
    cases b? with
    | none => exact ih hxs k₁
    | some b => exact (ih hxs k₁).bind fun bs k' hbs =>
        meets_pure (List.forall_mem_cons.2 ⟨hb b rfl, hbs⟩)

end PlanM

namespace Plan

variable {abi : Abi} {given : List (Local × Layout)}

/-! ### Words in shared slots -/

theorem inBounds_cast (given : List (Local × Layout)) (word : Local) (kind slot : CoreType)
    (back : Bool) (k : Nat) :
    (cast word kind slot back).Meets k fun r _ => InBounds given r.1 := by
  rw [cast]
  cases Bitcast.between kind slot with
  | none => exact meets_throw _
  | some there =>
    dsimp only
    generalize (if back = true then there.inverse else there) = c
    split
    · exact meets_pure (inBounds_nil given)
    · exact meets_bind_fresh (meets_pure (inBounds_quiet rfl rfl))

theorem inBounds_fillSlots (given : List (Local × Layout)) (slots : List CoreType)
    (ws : List (Local × CoreType)) (k : Nat) :
    (fillSlots slots ws).Meets k fun r _ => InBounds given r.1 := by
  induction slots generalizing ws k with
  | nil => exact meets_pure (inBounds_nil given)
  | cons slot slots ih =>
    cases ws with
    | nil =>
      exact meets_bind_fresh <| (ih [] _).bind fun r k' hr => meets_pure <|
        (inBounds_quiet (i := .const slot 0 ⟨k⟩) rfl rfl).append_given hr
    | cons w ws =>
      exact (inBounds_cast given w.1 w.2 slot false k).bind fun first k₁ hfirst =>
        (ih ws k₁).bind fun r k' hr => meets_pure (hfirst.append_given hr)

theorem inBounds_drainSlots (given : List (Local × Layout)) (kinds slots : List CoreType)
    (ws : List Local) (k : Nat) :
    (drainSlots kinds ws slots).Meets k fun r _ => InBounds given r.1 := by
  induction kinds generalizing ws slots k with
  | nil => exact meets_pure (inBounds_nil given)
  | cons kind kinds ih =>
    cases ws with
    | nil => exact meets_pure (inBounds_nil given)
    | cons w ws =>
      cases slots with
      | nil => exact meets_pure (inBounds_nil given)
      | cons slot slots =>
        exact (inBounds_cast given w kind slot true k).bind fun first k₁ hfirst =>
          (ih slots ws k₁).bind fun r k' hr => meets_pure (hfirst.append_given hr)

/-! ### Values in memory -/

/-- What is stored where there is room for it is in bounds. -/
def StoresInBounds (store : Shape → Local → Local → Nat → PlanM (List Instruction)) : Prop :=
  ∀ given s src base offset k, Room given s base offset →
    (store s src base offset).Meets k fun code _ => InBounds given code

/-- What is loaded from where there is room for it is in bounds. -/
def LoadsInBounds (load : Shape → Local → Nat → PlanM (List Instruction × Local)) : Prop :=
  ∀ given s base offset k, Room given s base offset →
    (load s base offset).Meets k fun r _ => InBounds given r.1

/-- What is freed that is stored where there is room for it is in bounds. -/
def FreesInBounds (free : Shape → Local → Nat → PlanM (List Instruction)) : Prop :=
  ∀ given s base offset k, Room given s base offset →
    (free s base offset).Meets k fun code _ => InBounds given code

theorem inBounds_loadWord {width : MemoryWidth} {base : Local} {offset : Nat}
    (h : ∀ dst, InBounds given [.load width base offset dst]) (k : Nat) :
    (loadWord width base offset).Meets k fun r _ => InBounds given r.1 :=
  meets_bind_fresh (meets_pure (h _))

theorem inBounds_loadPair {s : Shape} {base : Local} {offset : Nat}
    (hroom : Room given s base offset) (hl : s.layout = .ok ⟨8, 4⟩) (k : Nat) :
    (loadPair base offset).Meets k fun r _ => InBounds given r.1 :=
  meets_bind_fresh <| meets_bind_fresh <| meets_pure (hroom.pair hl rfl rfl rfl rfl)

/-- An item of a list has room in its slot. -/
theorem room_item {s : Shape} {layout : Layout} {addr : Local} (hl : s.layout = .ok layout)
    (hm : (addr, layout) ∈ given) : Room given s addr 0 :=
  ⟨layout, layout, hl, hm, layout.inside_refl⟩

theorem inBounds_lowerList {store : Shape → Local → Local → Nat → PlanM (List Instruction)}
    (hs : StoresInBounds store) (given : List (Local × Layout)) (element : TypeId) (src : Local)
    (k : Nat) : (lowerList abi store element src).Meets k fun r _ => InBounds given r.1 := by
  refine meets_bind_liftM fun layout hlayout => meets_bind_fresh <| meets_bind_fresh <|
    meets_bind_fresh <| meets_bind_fresh ?_
  refine (hs (given ++ [(⟨k + 3⟩, layout)]) _ _ _ 0 _ (room_item hlayout (by simp))).bind
    fun body k' hbody => meets_pure ?_
  exact inBounds_bodies rfl (List.forall_mem_singleton.2 hbody)

theorem inBounds_liftList {load : Shape → Local → Nat → PlanM (List Instruction × Local)}
    (hl : LoadsInBounds load) (given : List (Local × Layout)) (element : TypeId) (ptr len : Local)
    (k : Nat) : (liftList abi load element ptr len).Meets k fun r _ => InBounds given r.1 := by
  refine meets_bind_liftM fun layout hlayout => meets_bind_fresh ?_
  refine (hl (given ++ [(⟨k⟩, layout)]) _ _ 0 _ (room_item hlayout (by simp))).bind
    fun r k' hbody => meets_bind_fresh (meets_pure ?_)
  exact inBounds_bodies rfl (List.forall_mem_singleton.2 hbody)

theorem inBounds_freeList {free : Shape → Local → Nat → PlanM (List Instruction)}
    (hf : FreesInBounds free) (given : List (Local × Layout)) (element : TypeId) (ptr len : Local)
    (k : Nat) : (freeList abi free element ptr len).Meets k fun code _ => InBounds given code := by
  refine meets_bind_liftM fun layout hlayout => meets_bind_fresh ?_
  refine (hf (given ++ [(⟨k⟩, layout)]) _ _ 0 _ (room_item hlayout (by simp))).bind
    fun body k' hbody => meets_pure ?_
  exact inBounds_bodies rfl (List.forall_mem_singleton.2 hbody)

/-- The arms of a sum are its bodies. -/
theorem inBounds_arms {i : Instruction} {arms : List Arm} (ha : i.access? = none)
    (hb : i.bodies = arms.map Arm.toBody) (h : ∀ arm ∈ arms, InBounds given arm.body) :
    InBounds given [i] :=
  inBounds_bodies ha (hb ▸ List.forall_mem_map.2 fun arm hm =>
    (h arm hm).mono (List.subset_append_left _ _))

theorem inBounds_storeArm {store : Shape → Local → Local → Nat → PlanM (List Instruction)}
    (hs : StoresInBounds store) {kind : SumKind} {cases : List (String × Option Shape)}
    {sl : SumLayout} {base : Local} {offset : Nat}
    (hroom : Room given (.sum kind cases) base offset)
    (hsl : Shape.sumLayout kind cases = .ok sl) {case : String × Option Shape} (hm : case ∈ cases)
    (index k : Nat) :
    (storeArm store sl base offset case index).Meets k fun arm _ => InBounds given arm.body := by
  have hhead (discriminant : Local) : InBounds given [.const .i32 index discriminant,
      .store (discriminantWidth sl.discriminantSize) discriminant base offset] :=
    (inBounds_quiet (i := .const .i32 index discriminant) rfl rfl).append_given
      (hroom.index hsl rfl rfl)
  obtain ⟨label, payload⟩ := case
  refine meets_bind_freshFor (fun hnone => ?_) fun shape hsome => ?_
  · cases hnone
    exact meets_bind_fresh (meets_pure (hhead _))
  · cases hsome
    refine meets_bind_fresh ((hs given shape _ _ _ _ (hroom.payload hsl hm)).bind
      fun code k' hcode => meets_pure ?_)
    exact (hhead _).append_given hcode

variable (abi) in
theorem storesInBounds_store (d : Nat) : StoresInBounds (store abi d) := by
  -- On the depth that is left: the parts of the shape have room in the room of the whole.
  induction d with
  | zero => exact fun _ _ _ _ _ _ _ => meets_throw _
  | succ d ih =>
    intro given s src base offset k hroom
    cases s with
    | leaf l =>
      exact meets_bind_liftM fun _ hcheck => meets_bind_fresh <| meets_pure <|
        (inBounds_quiet (i := .lower l.wordKind src ⟨k⟩) rfl rfl).append_given
          (hroom.leaf hcheck rfl rfl)
    | string =>
      exact meets_bind_fresh <| meets_bind_fresh <| meets_pure <|
        (inBounds_quiet (i := .stringLower src ⟨k⟩ ⟨k + 1⟩) rfl rfl).append_given
          (hroom.pair rfl rfl rfl rfl rfl)
    | list element =>
      exact (inBounds_lowerList ih given element src k).bind fun r k' hr => meets_pure <|
        hr.append_given (hroom.pair rfl rfl rfl rfl rfl)
    | product kind fields =>
      refine meets_bind_liftM fun offsets hoffsets => (meets_freshList _ k).bind
        fun locals k₁ _ => ?_
      have hparts (x : ((String × Shape) × Local) × Nat)
          (hx : x ∈ (fields.zip locals).zip offsets) (k : Nat) :
          (store abi d x.1.1.2 x.1.2 base (offset + x.2)).Meets k fun code _ =>
            InBounds given code :=
        ih given _ _ _ _ k (hroom.field hoffsets (Shape.mem_zip_of_mem_zip_zip hx))
      exact (meets_mapM_all hparts k₁).bind fun codes k' hcodes => meets_pure <|
        (inBounds_quiet (i := .destructure kind.title src locals) rfl rfl).append_given
          (inBounds_flatten hcodes)
    | sum kind cases =>
      rw [store_sum]
      refine meets_bind_liftM fun sl hsl => ?_
      have harms (x : (String × Option Shape) × Nat) (hx : x ∈ cases.zipIdx) (k : Nat) :
          (storeArm (store abi d) sl base offset x.1 x.2).Meets k fun arm _ =>
            InBounds given arm.body :=
        inBounds_storeArm ih hroom hsl (List.fst_mem_of_mem_zipIdx hx) x.2 k
      exact (meets_mapM_all harms k).bind fun arms k' harms => meets_pure
        (inBounds_arms rfl rfl harms)
    | unsupported kind title => exact meets_throw _
    | unresolved cause => exact meets_throw _

theorem inBounds_loadArm {load : Shape → Local → Nat → PlanM (List Instruction × Local)}
    (hl : LoadsInBounds load) {kind : SumKind} {cases : List (String × Option Shape)}
    {sl : SumLayout} {base : Local} {offset : Nat}
    (hroom : Room given (.sum kind cases) base offset)
    (hsl : Shape.sumLayout kind cases = .ok sl) {case : String × Option Shape} (hm : case ∈ cases)
    (index k : Nat) :
    (loadArm load sl base offset case index).Meets k fun arm _ => InBounds given arm.body := by
  obtain ⟨label, _ | shape⟩ := case
  · exact meets_pure (inBounds_nil given)
  · exact (hl given shape _ _ _ (hroom.payload hsl hm)).bind fun r k' hr => meets_pure hr

variable (abi) in
theorem loadsInBounds_load (d : Nat) : LoadsInBounds (load abi d) := by
  induction d with
  | zero => exact fun _ _ _ _ _ _ => meets_throw _
  | succ d ih =>
    intro given s base offset k hroom
    cases s with
    | leaf l =>
      exact meets_bind_liftM fun _ hcheck =>
        (inBounds_loadWord (fun dst => hroom.leaf hcheck rfl rfl) k).bind fun r k₁ hr =>
          meets_bind_fresh <| meets_pure (hr.append_given (inBounds_quiet rfl rfl))
    | string =>
      exact (inBounds_loadPair hroom rfl k).bind fun r k₁ hr => meets_bind_fresh <| meets_pure <|
        hr.append_given (inBounds_quiet rfl rfl)
    | list element =>
      exact (inBounds_loadPair hroom rfl k).bind fun ⟨code, ptr, len⟩ k₁ hcode =>
        (inBounds_liftList ih given element ptr len k₁).bind fun r k' hr =>
          meets_pure (hcode.append_given hr)
    | product kind fields =>
      refine meets_bind_liftM fun offsets hoffsets => ?_
      have hparts (x : (String × Shape) × Nat) (hx : x ∈ fields.zip offsets) (k : Nat) :
          (load abi d x.1.2 base (offset + x.2)).Meets k fun r _ => InBounds given r.1 :=
        ih given _ _ _ k (hroom.field hoffsets hx)
      exact (meets_mapM_all hparts k).bind fun rs k' hrs => meets_bind_fresh <| meets_pure <|
        (inBounds_flatten (List.forall_mem_map.2 hrs)).append_given (inBounds_quiet rfl rfl)
    | sum kind cases =>
      rw [load_sum]
      refine meets_bind_liftM fun sl hsl =>
        (inBounds_loadWord (fun dst => hroom.index hsl rfl rfl) k).bind fun r k₁ hr => ?_
      have harms (x : (String × Option Shape) × Nat) (hx : x ∈ cases.zipIdx) (k : Nat) :
          (loadArm (load abi d) sl base offset x.1 x.2).Meets k fun arm _ =>
            InBounds given arm.body :=
        inBounds_loadArm ih hroom hsl (List.fst_mem_of_mem_zipIdx hx) x.2 k
      exact (meets_mapM_all harms k₁).bind fun arms k' harms => meets_bind_fresh <|
        meets_pure (hr.append_given (inBounds_arms rfl rfl harms))
    | unsupported kind title => exact meets_throw _
    | unresolved cause => exact meets_throw _

theorem inBounds_freeStoredArm {free : Shape → Local → Nat → PlanM (List Instruction)}
    (hf : FreesInBounds free) {kind : SumKind} {cases : List (String × Option Shape)}
    {sl : SumLayout} {base : Local} {offset : Nat}
    (hroom : Room given (.sum kind cases) base offset)
    (hsl : Shape.sumLayout kind cases = .ok sl) {case : String × Option Shape} (hm : case ∈ cases)
    (index k : Nat) :
    (freeStoredArm free sl base offset case index).Meets k fun arm? _ =>
      ∀ arm ∈ arm?, InBounds given arm.body := by
  obtain ⟨label, _ | shape⟩ := case
  · exact meets_pure fun _ hm => absurd hm (Option.not_mem_none _)
  · rw [freeStoredArm]
    dsimp only
    split
    · exact meets_pure fun _ hm => absurd hm (Option.not_mem_none _)
    · refine (hf given shape _ _ _ (hroom.payload hsl hm)).bind fun body k' hbody =>
        meets_pure fun arm harm => ?_
      cases harm
      exact hbody

variable (abi) in
theorem freesInBounds_freeStored (d : Nat) : FreesInBounds (freeStored abi d) := by
  induction d with
  | zero => exact fun _ _ _ _ _ _ => meets_throw _
  | succ d ih =>
    intro given s base offset k hroom
    cases s with
    | leaf l => exact meets_pure (inBounds_nil given)
    | string =>
      exact (inBounds_loadPair hroom rfl k).bind fun r k' hr => meets_pure <|
        hr.append_given (inBounds_quiet rfl rfl)
    | list element =>
      exact (inBounds_loadPair hroom rfl k).bind fun ⟨code, ptr, len⟩ k₁ hcode =>
        (inBounds_freeList ih given element ptr len k₁).bind fun more k' hmore =>
          meets_pure (hcode.append_given hmore)
    | product kind fields =>
      cases howns : Shape.fieldsOwnMemory fields with
      | false =>
        rw [freeStored_product_nothing d kind howns]
        exact meets_pure (inBounds_nil given)
      | true =>
        rw [freeStored_product d kind howns]
        refine meets_bind_liftM fun offsets hoffsets => ?_
        have hparts (x : (String × Shape) × Nat) (hx : x ∈ fields.zip offsets) (k : Nat) :
            (freeStored abi d x.1.2 base (offset + x.2)).Meets k fun code _ =>
              InBounds given code :=
          ih given _ _ _ k (hroom.field hoffsets hx)
        exact (meets_mapM_all hparts k).bind fun codes k' hcodes =>
          meets_pure (inBounds_flatten hcodes)
    | sum kind cases =>
      cases howns : Shape.casesOwnMemory cases with
      | false =>
        rw [freeStored_sum_nothing d kind howns]
        exact meets_pure (inBounds_nil given)
      | true =>
        rw [freeStored_sum d howns]
        refine meets_bind_liftM fun sl hsl =>
          (inBounds_loadWord (fun dst => hroom.index hsl rfl rfl) k).bind fun r k₁ hr => ?_
        have harms (x : (String × Option Shape) × Nat) (hx : x ∈ cases.zipIdx) (k : Nat) :
            (freeStoredArm (freeStored abi d) sl base offset x.1 x.2).Meets k fun arm? _ =>
              ∀ arm ∈ arm?, InBounds given arm.body :=
          inBounds_freeStoredArm ih hroom hsl (List.fst_mem_of_mem_zipIdx hx) x.2 k
        exact (meets_filterMapM_all harms k₁).bind fun arms k' harms => meets_pure <|
          hr.append_given (inBounds_arms rfl rfl harms)
    | unsupported kind title => exact meets_throw _
    | unresolved cause => exact meets_throw _

/-! ### Values in words -/

theorem inBounds_lowerArm {lower : Shape → Local → PlanM (List Instruction × List Local)}
    (hl : ∀ s src k, (lower s src).Meets k fun r _ => InBounds given r.1) (slots : List CoreType)
    (case : String × Option Shape) (index k : Nat) :
    (lowerArm lower slots case index).Meets k fun arm _ => InBounds given arm.body := by
  have hbody {code fill : List Instruction} (discriminant : Local) (hcode : InBounds given code)
      (hfill : InBounds given fill) :
      InBounds given (.const .i32 index discriminant :: code ++ fill) :=
    ((inBounds_quiet (i := .const .i32 index discriminant) rfl rfl).append_given hcode).append_given
      hfill
  obtain ⟨label, payload⟩ := case
  refine meets_bind_freshFor (fun hnone => meets_bind_fresh ?_) fun shape hsome =>
    meets_bind_fresh ?_
  · cases hnone
    exact (inBounds_fillSlots given slots [] _).bind fun fill k' hfill => meets_pure
      (hbody _ (inBounds_nil given) hfill)
  · cases hsome
    have hcase (part : Local) (k : Nat) :
        (lowerCase lower (some shape) (some part)).Meets k fun r _ => InBounds given r.1 :=
      (hl shape part k).bind fun r k' hr => meets_bind_liftM fun kinds _ => meets_pure hr
    exact (hcase _ _).bind fun r k₁ hr => (inBounds_fillSlots given slots r.2 k₁).bind
      fun fill k' hfill => meets_pure (hbody _ hr hfill)

variable (abi) in
/-- Only the items of lists are stored in memory. -/
theorem inBounds_lower (given : List (Local × Layout)) (d : Nat) (s : Shape) (src : Local)
    (k : Nat) : (lower abi d s src).Meets k fun r _ => InBounds given r.1 := by
  induction d generalizing s src k with
  | zero => exact meets_throw _
  | succ d ih =>
    cases s with
    | leaf l =>
      exact meets_bind_liftM fun _ _ => meets_bind_fresh <| meets_pure (inBounds_quiet rfl rfl)
    | string =>
      exact meets_bind_fresh <| meets_bind_fresh <| meets_pure (inBounds_quiet rfl rfl)
    | list element =>
      exact (inBounds_lowerList (storesInBounds_store abi d) given element src k).bind
        fun r k' hr => meets_pure hr
    | product kind fields =>
      refine (meets_freshList _ k).bind fun locals k₁ _ => ?_
      have hparts (x : (String × Shape) × Local) (_ : x ∈ fields.zip locals) (k : Nat) :
          (lower abi d x.1.2 x.2).Meets k fun r _ => InBounds given r.1 := ih _ _ k
      exact (meets_mapM_all hparts k₁).bind fun rs k' hrs => meets_pure <|
        (inBounds_quiet (i := .destructure kind.title src locals) rfl rfl).append_given
          (inBounds_flatten (List.forall_mem_map.2 hrs))
    | sum kind cases =>
      rw [lower_sum]
      refine meets_bind_liftM fun slots _ => (meets_freshList _ k).bind fun results k₁ _ => ?_
      have harms (x : (String × Option Shape) × Nat) (_ : x ∈ cases.zipIdx) (k : Nat) :
          (lowerArm (lower abi d) slots x.1 x.2).Meets k fun arm _ => InBounds given arm.body :=
        inBounds_lowerArm ih slots x.1 x.2 k
      exact (meets_mapM_all harms k₁).bind fun arms k' harms => meets_pure
        (inBounds_arms rfl rfl harms)
    | unsupported kind title => exact meets_throw _
    | unresolved cause => exact meets_throw _

theorem inBounds_liftFields
    {lift : Shape → List Local → PlanM (List Instruction × Local × List Local)}
    (hl : ∀ s ws k, (lift s ws).Meets k fun r _ => InBounds given r.1)
    (fields : List (String × Shape)) (ws : List Local) (k : Nat) :
    (liftFields lift fields ws).Meets k fun r _ => InBounds given r.1 := by
  induction fields generalizing ws k with
  | nil => exact meets_pure (inBounds_nil given)
  | cons field fields ih =>
    exact (hl field.2 ws k).bind fun ⟨first, part, ws⟩ k₁ hfirst => (ih ws k₁).bind
      fun r k' hr => meets_pure (hfirst.append_given hr)

theorem inBounds_liftArm
    {lift : Shape → List Local → PlanM (List Instruction × Local × List Local)}
    (hl : ∀ s ws k, (lift s ws).Meets k fun r _ => InBounds given r.1) (slots : List CoreType)
    (own : List Local) (case : String × Option Shape) (index k : Nat) :
    (liftArm lift slots own case index).Meets k fun arm _ => InBounds given arm.body := by
  obtain ⟨label, _ | shape⟩ := case
  · exact meets_pure (inBounds_nil given)
  · exact meets_bind_liftM fun kinds _ => (inBounds_drainSlots given kinds slots own k).bind
      fun ⟨casts, payload⟩ k₁ hcasts => (hl shape payload k₁).bind fun r k' hr =>
        meets_pure (hcasts.append_given hr)

variable (abi) in
/-- Only the items of lists are loaded from memory. -/
theorem inBounds_lift (given : List (Local × Layout)) (d : Nat) (s : Shape) (ws : List Local)
    (k : Nat) : (lift abi d s ws).Meets k fun r _ => InBounds given r.1 := by
  induction d generalizing s ws k with
  | zero => exact meets_throw _
  | succ d ih =>
    cases s with
    | leaf l =>
      exact meets_bind_liftM fun _ _ => meets_bind_next fun w rest _ => meets_bind_fresh <|
        meets_pure (inBounds_quiet rfl rfl)
    | string =>
      exact meets_bind_next fun ptr rest _ => meets_bind_next fun len rest _ =>
        meets_bind_fresh <| meets_pure (inBounds_quiet rfl rfl)
    | list element =>
      exact meets_bind_next fun ptr rest _ => meets_bind_next fun len rest _ =>
        (inBounds_liftList (loadsInBounds_load abi d) given element ptr len k).bind
          fun r k' hr => meets_pure hr
    | product kind fields =>
      exact (inBounds_liftFields ih fields ws k).bind fun r k₁ hr => meets_bind_fresh <|
        meets_pure (hr.append_given (inBounds_quiet rfl rfl))
    | sum kind cases =>
      rw [lift_sum]
      refine meets_bind_liftM fun slots _ => meets_bind_next fun discriminant rest _ =>
        meets_bind_take fun _ => ?_
      have harms (x : (String × Option Shape) × Nat) (_ : x ∈ cases.zipIdx) (k : Nat) :
          (liftArm (lift abi d) slots (rest.take slots.length) x.1 x.2).Meets k fun arm _ =>
            InBounds given arm.body := inBounds_liftArm ih slots _ x.1 x.2 k
      exact (meets_mapM_all harms k).bind fun arms k' harms => meets_bind_fresh <| meets_pure <|
        inBounds_arms rfl rfl harms
    | unsupported kind title => exact meets_throw _
    | unresolved cause => exact meets_throw _

theorem inBounds_freeFieldWords
    {free : Shape → List Local → PlanM (List Instruction × List Local)}
    (hf : ∀ s ws k, (free s ws).Meets k fun r _ => InBounds given r.1)
    (fields : List (String × Shape)) (ws : List Local) (k : Nat) :
    (freeFieldWords free fields ws).Meets k fun r _ => InBounds given r.1 := by
  induction fields generalizing ws k with
  | nil => exact meets_pure (inBounds_nil given)
  | cons field fields ih =>
    exact (hf field.2 ws k).bind fun ⟨first, ws⟩ k₁ hfirst => (ih ws k₁).bind
      fun r k' hr => meets_pure (hfirst.append_given hr)

theorem inBounds_freeFlatArm
    {free : Shape → List Local → PlanM (List Instruction × List Local)}
    (hf : ∀ s ws k, (free s ws).Meets k fun r _ => InBounds given r.1) (slots : List CoreType)
    (own : List Local) (case : String × Option Shape) (index k : Nat) :
    (freeFlatArm free slots own case index).Meets k fun arm? _ =>
      ∀ arm ∈ arm?, InBounds given arm.body := by
  obtain ⟨label, _ | shape⟩ := case
  · exact meets_pure fun _ hm => absurd hm (Option.not_mem_none _)
  · rw [freeFlatArm]
    dsimp only
    split
    · exact meets_pure fun _ hm => absurd hm (Option.not_mem_none _)
    · refine meets_bind_liftM fun kinds _ => (inBounds_drainSlots given kinds slots own k).bind
        fun casts k₁ hcasts => (hf shape casts.2 k₁).bind fun r k' hr =>
          meets_pure fun arm harm => ?_
      cases harm
      exact hcasts.append_given hr

variable (abi) in
/-- Only the items of lists are loaded from memory to free what they own. -/
theorem inBounds_freeFlat (given : List (Local × Layout)) (d : Nat) (s : Shape) (ws : List Local)
    (k : Nat) : (freeFlat abi d s ws).Meets k fun r _ => InBounds given r.1 := by
  induction d generalizing s ws k with
  | zero => exact meets_throw _
  | succ d ih =>
    cases howns : s.ownsMemory with
    | false =>
      rw [freeFlat_nothing d howns]
      exact meets_bind_liftM fun kinds _ => meets_bind_take fun _ =>
        meets_pure (inBounds_nil given)
    | true =>
      cases s with
      | string =>
        exact meets_bind_next fun ptr rest _ => meets_bind_next fun len rest _ =>
          meets_pure (inBounds_quiet rfl rfl)
      | list element =>
        exact meets_bind_next fun ptr rest _ => meets_bind_next fun len rest _ =>
          (inBounds_freeList (freesInBounds_freeStored abi d) given element ptr len k).bind
            fun code k' hcode => meets_pure hcode
      | product kind fields =>
        rw [freeFlat_product d howns]
        exact inBounds_freeFieldWords ih fields ws k
      | sum kind cases =>
        rw [freeFlat_sum d howns]
        refine meets_bind_liftM fun slots _ => meets_bind_next fun discriminant rest _ =>
          meets_bind_take fun _ => ?_
        have harms (x : (String × Option Shape) × Nat) (_ : x ∈ cases.zipIdx) (k : Nat) :
            (freeFlatArm (freeFlat abi d) slots (rest.take slots.length) x.1 x.2).Meets k
              fun arm? _ => ∀ arm ∈ arm?, InBounds given arm.body :=
          inBounds_freeFlatArm ih slots _ x.1 x.2 k
        exact (meets_filterMapM_all harms k).bind fun arms k' harms => meets_pure
          (inBounds_arms rfl rfl harms)
      | leaf | unsupported | unresolved => cases howns

/-! ### Values in rows -/

section Rows

variable {ids : List TypeId} {area : Layout} {ptr : Local}

/-- Each of some values in a row has room in their area. -/
theorem room_row {offsets : List Nat} {id : TypeId} {start : Nat}
    (ha : abi.sequenceLayout ids = .ok area) (hm : (ptr, area) ∈ given)
    (ho : abi.fieldOffsets ids = .ok offsets) (hid : (id, start) ∈ ids.zip offsets) :
    Room given (abi.shape id) ptr start := by
  have hroom : Room given (.product .tuple (abi.fieldsOf ids)) ptr 0 :=
    ⟨area, area, ha, hm, area.inside_refl⟩
  have hfield : (("", abi.shape id), start) ∈ (abi.fieldsOf ids).zip offsets := by
    rw [Abi.fieldsOf, List.zip_map_left]
    exact List.mem_map.2 ⟨_, hid, rfl⟩
  have hfield := hroom.field ho hfield
  rwa [Nat.zero_add] at hfield

theorem inBounds_storeAll (ha : abi.sequenceLayout ids = .ok area) (hm : (ptr, area) ∈ given)
    (values : List Local) (k : Nat) :
    (storeAll abi ids values ptr).Meets k fun code _ => InBounds given code := by
  refine meets_bind_liftM fun offsets hoffsets => ?_
  have hparts (x : (TypeId × Local) × Nat) (hx : x ∈ (ids.zip values).zip offsets) (k : Nat) :
      (store abi (depthBound abi) (abi.shape x.1.1) x.1.2 ptr x.2).Meets k fun code _ =>
        InBounds given code :=
    storesInBounds_store abi _ given _ _ _ _ k
      (room_row ha hm hoffsets (Shape.mem_zip_of_mem_zip_zip hx))
  exact (meets_mapM_all hparts k).bind fun codes k' hcodes => meets_pure (inBounds_flatten hcodes)

theorem inBounds_loadAll (ha : abi.sequenceLayout ids = .ok area) (hm : (ptr, area) ∈ given)
    (k : Nat) : (loadAll abi ids ptr).Meets k fun r _ => InBounds given r.1 := by
  refine meets_bind_liftM fun offsets hoffsets => ?_
  have hparts (x : TypeId × Nat) (hx : x ∈ ids.zip offsets) (k : Nat) :
      (load abi (depthBound abi) (abi.shape x.1) ptr x.2).Meets k fun r _ => InBounds given r.1 :=
    loadsInBounds_load abi _ given _ _ _ k (room_row ha hm hoffsets hx)
  exact (meets_mapM_all hparts k).bind fun rs k' hrs => meets_pure <|
    inBounds_flatten (List.forall_mem_map.2 hrs)

theorem inBounds_freeAll (ha : abi.sequenceLayout ids = .ok area) (hm : (ptr, area) ∈ given)
    (k : Nat) : (freeAll abi ids ptr).Meets k fun code _ => InBounds given code := by
  refine meets_bind_liftM fun offsets hoffsets => ?_
  have hparts (x : TypeId × Nat) (hx : x ∈ ids.zip offsets) (k : Nat) :
      (freeStored abi (depthBound abi) (abi.shape x.1) ptr x.2).Meets k fun code _ =>
        InBounds given code :=
    freesInBounds_freeStored abi _ given _ _ _ k (room_row ha hm hoffsets hx)
  exact (meets_mapM_all hparts k).bind fun codes k' hcodes => meets_pure (inBounds_flatten hcodes)

/-- Loading values from an area, and freeing what they own and the area. -/
theorem inBounds_bind_loadAll {β : Type} {R : β → Nat → Prop}
    (ha : abi.sequenceLayout ids = .ok area) (hm : (ptr, area) ∈ given)
    {g : List Instruction × List Local → List Instruction → PlanM β} {k : Nat}
    (hg : ∀ r freeing k', InBounds given (r.1 ++ freeing ++ [.free ptr area.size area.align]) →
      (g r freeing).Meets k' R) :
    (loadAll abi ids ptr >>= fun r => freeAll abi ids ptr >>= g r).Meets k R :=
  (inBounds_loadAll ha hm k).bind fun r k₁ hr => (inBounds_freeAll ha hm k₁).bind
    fun freeing k₂ hfreeing => hg r freeing k₂
      ((hr.append_given hfreeing).append_given (inBounds_quiet rfl rfl))

variable (abi ids) in
theorem inBounds_lowerAll (given : List (Local × Layout)) (values : List Local) (k : Nat) :
    (lowerAll abi ids values).Meets k fun r _ => InBounds given r.1 := by
  have hparts (x : TypeId × Local) (_ : x ∈ ids.zip values) (k : Nat) :
      (lower abi (depthBound abi) (abi.shape x.1) x.2).Meets k fun r _ => InBounds given r.1 :=
    inBounds_lower abi given _ _ _ k
  exact (meets_mapM_all hparts k).bind fun rs k' hrs => meets_pure <|
    inBounds_flatten (List.forall_mem_map.2 hrs)

variable (abi) in
/-- The words that are left are those behind the words of the parameters. -/
theorem inBounds_liftParams (given : List (Local × Layout)) {kinds : List CoreType}
    (hk : Shape.flattenFields (abi.fieldsOf ids) = .ok kinds) (ws : List Local) (k : Nat) :
    (liftParams abi ids ws).Meets k fun r _ =>
      InBounds given r.1 ∧ r.2.2 = ws.drop kinds.length := by
  induction ids generalizing ws kinds k with
  | nil =>
    cases hk
    exact meets_pure ⟨inBounds_nil given, rfl⟩
  | cons id ids ih =>
    obtain ⟨own, hown, hk⟩ := Except.bind_eq_ok.1 hk
    obtain ⟨rest, hrest, hk⟩ := Except.bind_eq_ok.1 hk
    cases hk
    refine meets_bind_liftM fun own' hown' => meets_bind_take fun _ => ?_
    cases hown.symm.trans hown'
    refine (inBounds_lift abi given _ _ _ k).bind fun ⟨lifting, part, _⟩ k₁ hlifting =>
      (inBounds_freeFlat abi given _ _ _ k₁).bind fun ⟨freeing, _⟩ k₂ hfreeing =>
        (ih hrest _ k₂).bind fun ⟨more, parts, left⟩ k' ⟨hmore, hleft⟩ => meets_pure ⟨?_, ?_⟩
    · exact (InBounds.append_given hlifting hfreeing).append_given hmore
    · rw [List.length_append, ← List.drop_drop]
      exact hleft

end Rows

/-! ### Both sides of a function -/

section Sides

variable {sig : Signature}

theorem inBounds_allocate (area : Layout) (k : Nat) :
    (allocate area).Meets k fun r _ => InBounds [] r.1 ∧ areasIn r.1 = [(r.2, area)] :=
  meets_bind_fresh (meets_pure ⟨inBounds_quiet rfl rfl, rfl⟩)

theorem inBounds_lowerInto {ids : List TypeId} {area? : Option Layout}
    (ha : ∀ area, area? = some area → abi.sequenceLayout ids = .ok area) (values : List Local)
    (k : Nat) : (lowerInto abi ids values area?).Meets k fun r _ => InBounds [] r.1 := by
  cases area? with
  | none => exact inBounds_lowerAll abi ids [] values k
  | some area =>
    refine (inBounds_allocate area k).bind fun ⟨code, ptr⟩ k₁ ⟨hcode, hareas⟩ => ?_
    have hm : (ptr, area) ∈ [] ++ areasIn code := hareas ▸ List.mem_cons_self
    exact (inBounds_storeAll (ha area rfl) hm values k₁).bind fun storing k' hstoring =>
      meets_pure (hcode.append hstoring)

theorem inBounds_reserve (area? : Option Layout) (k : Nat) :
    (reserve area?).Meets k fun r _ => InBounds [] r.1 ∧
      ∀ area, area? = some area → ∃ ptr, r.2 = [ptr] ∧ (ptr, area) ∈ areasIn r.1 := by
  cases area? with
  | none => exact meets_pure ⟨inBounds_nil [], nofun⟩
  | some area =>
    refine (inBounds_allocate area k).bind fun ⟨code, ptr⟩ k' ⟨hcode, hareas⟩ =>
      meets_pure ⟨hcode, ?_⟩
    rintro _ ⟨⟩
    exact ⟨ptr, rfl, hareas ▸ List.mem_cons_self⟩

theorem inBounds_receive (hs : Signed abi sig) (results : List Local) {pointer : List Local}
    (hp : ∀ area, sig.returnArea = some area → ∃ ptr, pointer = [ptr] ∧ (ptr, area) ∈ given)
    (k : Nat) : (receive abi sig.resultTypes results sig.returnArea pointer).Meets k fun r _ =>
      InBounds given r.1 := by
  cases harea : sig.returnArea with
  | some area =>
    obtain ⟨ptr, rfl, hm⟩ := hp area harea
    exact inBounds_bind_loadAll (hs.returnArea area harea) hm fun r freeing k' hcode =>
      meets_pure hcode
  | none =>
    match sig.resultTypes, hs.single harea with
    | [], _ => exact meets_pure (inBounds_nil given)
    | [id], _ =>
      exact (inBounds_lift abi given _ _ _ k).bind fun ⟨lifting, value, _⟩ k₁ hlifting =>
        (inBounds_freeFlat abi given _ _ _ k₁).bind fun r k' hr =>
          meets_pure (hlifting.append_given hr)

theorem inBounds_imported (hs : Signed abi sig) (module : Option String) (name : String) (k : Nat) :
    (imported abi sig module name).Meets k fun r _ => InBounds [] r.2 := by
  rw [imported_eq]
  refine (meets_freshList _ k).bind fun params k₁ _ => ?_
  refine (inBounds_lowerInto hs.paramArea params k₁).bind fun ⟨lowering, args⟩ k₂ hlow => ?_
  refine (inBounds_reserve sig.returnArea k₂).bind fun ⟨reserving, pointer⟩ k₃ ⟨hres, hptr⟩ => ?_
  refine (meets_freshList _ k₃).bind fun results k₄ _ => ?_
  have hcalled : InBounds [] (lowering ++ reserving ++
      [.callCore module name (args ++ pointer) results]) :=
    (InBounds.append_given hlow hres).append_given (inBounds_quiet rfl rfl)
  have hgiven (area : Layout) (harea : sig.returnArea = some area) : ∃ ptr, pointer = [ptr] ∧
      (ptr, area) ∈ areasIn (lowering ++ reserving ++
        [.callCore module name (args ++ pointer) results]) := by
    obtain ⟨ptr, hpointer, hm⟩ := hptr area harea
    simp only [areasIn_append, List.mem_append]
    exact ⟨ptr, hpointer, .inl (.inr hm)⟩
  refine (inBounds_receive hs results hgiven k₄).bind fun ⟨lifting, values⟩ k' hlift =>
    meets_pure ?_
  exact (hcalled.append hlift).append_given (inBounds_quiet rfl rfl)

/-- The pointer to an area, if there is one. -/
def pointerTo (area? : Option Layout) (ptr? : Option Local) : List (Local × Layout) :=
  ptr?.toList.zip area?.toList

theorem inBounds_liftFrom {ids : List TypeId} {kinds : List CoreType} {area? : Option Layout}
    (hk : Shape.flattenFields (abi.fieldsOf ids) = .ok kinds)
    (ha : ∀ area, area? = some area → abi.sequenceLayout ids = .ok area) (params : List Local)
    (k : Nat) : (liftFrom abi ids params area?).Meets k fun r _ =>
      InBounds (pointerTo area? params.head?) r.1 ∧
        r.2.2 = params.drop (if area?.isSome then 1 else kinds.length) := by
  cases area? with
  | none => exact inBounds_liftParams abi _ hk params k
  | some area =>
    refine meets_bind_next fun ptr rest hparams => ?_
    subst hparams
    exact inBounds_bind_loadAll (ha area rfl) List.mem_cons_self fun r freeing k' hcode =>
      meets_pure ⟨hcode, rfl⟩

theorem inBounds_lowerBack (hs : Signed abi sig) (results : List Local) {ptr? : Option Local}
    (hp : sig.returnArea.isSome = ptr?.isSome) (k : Nat) :
    (lowerBack abi sig.resultTypes results ptr?).Meets k fun r _ =>
      InBounds (pointerTo sig.returnArea ptr?) r.1 := by
  cases ptr? with
  | none => exact inBounds_lowerAll abi _ _ results k
  | some ptr =>
    obtain ⟨area, harea⟩ := Option.isSome_iff_exists.1 hp
    have hm : (ptr, area) ∈ pointerTo sig.returnArea (some ptr) := by
      rw [harea]
      exact List.mem_cons_self
    exact (inBounds_storeAll (hs.returnArea area harea) hm results k).bind fun code k' hcode =>
      meets_pure hcode

theorem inBounds_freeBack (hs : Signed abi sig) (count k : Nat) :
    (freeBack abi sig.resultTypes count sig.returnArea).Meets k fun r _ =>
      InBounds (pointerTo sig.returnArea r.1.head?) r.2 := by
  cases harea : sig.returnArea with
  | some area =>
    exact meets_bind_fresh <| (inBounds_freeAll (hs.returnArea area harea)
      List.mem_cons_self _).bind fun code k' hcode => meets_pure hcode
  | none =>
    refine (meets_freshList _ k).bind fun params k₁ _ => ?_
    match sig.resultTypes, hs.single harea with
    | [], _ => exact meets_pure (inBounds_nil _)
    | [id], _ =>
      exact (inBounds_freeFlat abi (pointerTo none params.head?) _ _ _ k₁).bind
        fun r k' hr => meets_pure hr

theorem inBounds_argsOf (given : List (Local × Layout)) (params : List Local) :
    InBounds given (argsOf params) := by
  intro i hi
  rw [allNested_argsOf] at hi
  obtain ⟨entry, -, rfl⟩ := List.mem_map.1 hi
  exact nofun

theorem inBounds_cleanup (hs : Signed abi sig) (name : String) (k : Nat) :
    (cleanup abi sig name).Meets k fun post? _ => ∀ post ∈ post?,
      InBounds (pointerTo sig.returnArea post.params.head?) post.body := by
  unfold cleanup
  split
  · rw [← bind_pure_comp, postReturn_eq, bind_assoc]
    refine (inBounds_freeBack hs _ k).bind fun ⟨params, freeing⟩ k' hfreeing =>
      meets_pure fun post hm => ?_
    cases hm
    exact (inBounds_argsOf _ params).append_given hfreeing
  · exact meets_pure fun _ hm => absurd hm (Option.not_mem_none _)

theorem inBounds_pointerOf (area? : Option Layout) (ws : List Local) (k : Nat) :
    (pointerOf ws area?).Meets k fun ptr? _ => area?.isSome = ptr?.isSome ∧
      pointerTo area? ptr? = pointerTo area? ws.head? := by
  cases area? with
  | none => exact meets_pure ⟨rfl, by simp [pointerTo]⟩
  | some area => exact meets_bind_next fun ptr rest hws => meets_pure ⟨rfl, hws ▸ rfl⟩

theorem inBounds_exported (hs : Signed abi sig) (name : String) (k : Nat) :
    (exported abi sig name).Meets k fun r _ => r.1.length = sig.coreParams.length ∧
      InBounds (pointerTo sig.paramArea r.1.head? ++ pointerTo sig.returnArea r.1.getLast?) r.2.1 ∧
        ∀ post ∈ r.2.2, InBounds (pointerTo sig.returnArea post.params.head?) post.body := by
  rw [exported_eq]
  refine (meets_freshList _ k).bind fun params k₁ ⟨hl, _⟩ => ?_
  refine (inBounds_liftFrom hs.params hs.paramArea params k₁).bind
    fun ⟨lifting, args, rest⟩ k₂ ⟨hlift, hrest⟩ => ?_
  refine (inBounds_pointerOf sig.returnArea rest k₂).bind fun ptr? k₃ ⟨hsome, hptr⟩ => ?_
  refine (meets_freshList _ k₃).bind fun results k₄ _ => ?_
  refine (inBounds_lowerBack hs results hsome k₄).bind fun ⟨lowering, values⟩ k₅ hlow => ?_
  refine (inBounds_cleanup hs name k₅).bind fun post? k' hpost => meets_pure ⟨hl, ?_, hpost⟩
  -- The pointer to the area for results is what is left of the parameters: the last one.
  have hlast : pointerTo sig.returnArea rest.head? = pointerTo sig.returnArea params.getLast? := by
    cases harea : sig.returnArea with
    | none => simp [pointerTo]
    | some area =>
      have hlen := hl.trans hs.coreParams
      rw [harea] at hlen
      rw [show rest = _ from hrest, List.head?_drop, List.getLast?_eq_getElem?, hlen]
      rfl
  rw [hptr, hlast] at hlow
  have hfirst := (inBounds_argsOf (pointerTo sig.paramArea params.head?) params).append_given hlift
  exact (((hfirst.mono (List.subset_append_left _ _)).append_given
    (inBounds_quiet rfl rfl)).append_given (hlow.mono (List.subset_append_right _ _))).append_given
      (inBounds_quiet rfl rfl)

end Sides

end Plan

/-! ### Whole plans -/

namespace FunctionPlan

/-- The pointers that a plan is given as parameters: to the area of the parameters, to the one for
the results, and later to this one again. -/
def received (p : FunctionPlan) : List (Local × Layout) :=
  match p.direction with
  | .imported => []
  | .exported => Plan.pointerTo p.signature.paramArea p.params.head? ++
      Plan.pointerTo p.signature.returnArea p.params.getLast? ++
      Plan.pointerTo p.signature.returnArea (p.postReturn.bind fun post => post.params.head?)

/-- The pointers of a plan, each with the layout of what it points to. -/
def areas (p : FunctionPlan) : List (Local × Layout) :=
  p.instructions.flatMap Instruction.areas ++ p.received

/-- Every word that a plan loads or stores is in one of its areas, and aligned if the area is. -/
def InBounds (p : FunctionPlan) : Prop :=
  ∀ i ∈ p.instructions, ∀ a ∈ i.access?, ∃ area, (a.base, area) ∈ p.areas ∧ a.Within area

end FunctionPlan

namespace Instruction

/-- The pointer that an instruction defines, or the parameter that it names, is one of the
temporaries that it defines. -/
theorem areas_argument_sublist (i : Instruction) :
    (i.areas.map Prod.fst ++ i.argument).Sublist i.defs := by
  cases i <;> simp [areas, argument, defs, results, bodies]

end Instruction

section Pointers

variable {p : FunctionPlan} {abi : Abi} {k k' : Nat}

theorem Plan.pointerTo_sublist (area? : Option Layout) (ptr? : Option Local) :
    ((pointerTo area? ptr?).map Prod.fst).Sublist ptr?.toList := by
  cases area? <;> cases ptr? <;> simp [pointerTo]

theorem toList_sublist {α : Type} {a? : Option α} {as : List α} (h : ∀ a ∈ a?, a ∈ as) :
    a?.toList.Sublist as := by
  cases a? with
  | none => exact List.nil_sublist as
  | some a => exact List.singleton_sublist.2 (h a rfl)

/-- What instructions define apart from their bodies, the pointers and the parameters, are
different temporaries. -/
theorem nodup_pointers {code : List Instruction} (h : (code.flatMap defs).Nodup) :
    (code.flatMap (fun i => i.areas.map Prod.fst) ++ code.flatMap argument).Nodup := by
  have hsub : (code.flatMap fun i => i.areas.map Prod.fst ++ i.argument).Sublist
      (code.flatMap defs) := by
    induction code with
    | nil => exact .slnil
    | cons i code ih =>
      rw [List.flatMap_cons, List.flatMap_cons]
      rw [List.flatMap_cons] at h
      exact i.areas_argument_sublist.append (ih (List.nodup_append'.1 h).2.1)
  exact (List.flatMap_append_perm code _ _).nodup_iff.2 (h.sublist hsub)

theorem FunctionPlan.definitions_eq (p : FunctionPlan) :
    p.definitions = p.inputs ++ p.instructions.flatMap defs := by
  cases hpost : p.postReturn <;>
    simp [definitions, bodies, Body.definitions, definedIn, instructions, hpost]

/-- The parameters that a plan is given areas with are named by its instructions. -/
theorem FunctionPlan.received_sublist (h : p.WellScoped) (hs : Signed abi p.signature)
    (hl : p.direction = .exported → p.params.length = p.signature.coreParams.length) :
    (p.received.map Prod.fst).Sublist (p.instructions.flatMap argument) := by
  cases hd : p.direction with
  | imported =>
    rw [received, hd]
    exact List.nil_sublist _
  | exported =>
    have hnamed : p.instructions.flatMap argument =
        p.params ++ p.postReturn.elim [] PostReturnPlan.params := by
      rw [instructions, List.flatMap_append, ← h.named hd]
      refine congrArg (namedIn p.body ++ ·) ?_
      cases hpost : p.postReturn with
      | none => rfl
      | some post => exact h.postNamed post hpost
    have hparams : ((Plan.pointerTo p.signature.paramArea p.params.head? ++
        Plan.pointerTo p.signature.returnArea p.params.getLast?).map Prod.fst).Sublist
          p.params := by
      have hlen := (hl hd).trans hs.coreParams
      cases hparea : p.signature.paramArea with
      | none =>
        have hnone : Plan.pointerTo none p.params.head? = [] := by simp [Plan.pointerTo]
        rw [hnone, List.nil_append]
        exact (Plan.pointerTo_sublist _ _).trans
            (toList_sublist fun _ => List.mem_of_getLast?)
      | some parea =>
        cases hrarea : p.signature.returnArea with
        | none =>
          have hnone : Plan.pointerTo none p.params.getLast? = [] := by simp [Plan.pointerTo]
          rw [hnone, List.append_nil]
          exact (Plan.pointerTo_sublist _ _).trans
            (toList_sublist fun _ => List.mem_of_head?)
        | some rarea =>
          rw [hparea, hrarea] at hlen
          match p.params, hlen with
          | [_, _], _ => exact List.Sublist.refl _
    rw [received, hd, hnamed, List.map_append]
    refine hparams.append ((Plan.pointerTo_sublist _ _).trans ?_)
    cases p.postReturn with
    | none => exact .slnil
    | some post => exact toList_sublist fun _ => List.mem_of_head?

/-- No pointer is given two layouts. -/
theorem FunctionPlan.nodup_areas (h : p.Made abi k k') (hs : Signed abi p.signature)
    (hl : p.direction = .exported → p.params.length = p.signature.coreParams.length) :
    (p.areas.map Prod.fst).Nodup := by
  have hdefs := h.numbered.nodup
  rw [definitions_eq] at hdefs
  have hpointers := nodup_pointers (List.nodup_append'.1 hdefs).2.1
  rw [areas, List.map_append, List.map_flatMap]
  exact hpointers.sublist ((received_sublist h.inScope hs hl).append_left _)

end Pointers

namespace Abi

open Plan

variable {abi : Abi} {sig : Signature} {params : List Local} {body : List Instruction}

theorem inBounds_of_imported {name : String} {module : Option String} (h : InBounds [] body) :
    FunctionPlan.InBounds ⟨name, module, .imported, sig, params, body, none⟩ := by
  intro i hi a ha
  rw [FunctionPlan.instructions, Option.elim, List.append_nil] at hi
  obtain ⟨area, hm, hw⟩ := h i hi a ha
  refine ⟨area, List.mem_append_left _ ?_, hw⟩
  rw [FunctionPlan.instructions, Option.elim, List.append_nil]
  exact hm

theorem inBounds_of_exported {name : String} {module : Option String}
    {post? : Option PostReturnPlan}
    (h : InBounds (pointerTo sig.paramArea params.head? ++
      pointerTo sig.returnArea params.getLast?) body)
    (hpost : ∀ post ∈ post?, InBounds (pointerTo sig.returnArea post.params.head?) post.body) :
    FunctionPlan.InBounds ⟨name, module, .exported, sig, params, body, post?⟩ := by
  intro i hi a ha
  rcases List.mem_append.1 hi with hi | hi
  · obtain ⟨area, hm, hw⟩ := h i hi a ha
    refine ⟨area, ?_, hw⟩
    simp only [FunctionPlan.areas, FunctionPlan.received, FunctionPlan.instructions,
      List.flatMap_append, List.mem_append] at hm ⊢
    exact hm.elim (fun hm => .inr (.inl hm)) fun hm => .inl (.inl hm)
  · cases post? with
    | none => cases hi
    | some post =>
      obtain ⟨area, hm, hw⟩ := hpost post rfl i hi a ha
      refine ⟨area, ?_, hw⟩
      simp only [FunctionPlan.areas, FunctionPlan.received, FunctionPlan.instructions,
        List.flatMap_append, List.mem_append] at hm ⊢
      exact hm.elim (fun hm => .inr (.inr hm)) fun hm => .inl (.inr hm)

theorem inBounds_planWith (abi : Abi) (module : Option String) (name : String) (func : TypeId)
    (direction : Direction) (k : Nat) :
    (abi.planWith module name func direction).Meets k fun p _ => p.InBounds ∧
      (p.direction = .exported → p.params.length = p.signature.coreParams.length) := by
  refine meets_bind_liftM fun sig hsig => ?_
  have hs := signed_of_functionSignature hsig
  cases direction with
  | imported =>
    exact (inBounds_imported hs module name k).bind fun r k' hr =>
      meets_pure ⟨inBounds_of_imported hr, nofun⟩
  | exported =>
    exact (inBounds_exported hs name k).bind fun r k' ⟨hl, hr, hpost⟩ =>
      meets_pure ⟨inBounds_of_exported hr hpost, fun _ => hl⟩

/-- Plans access memory in bounds and aligned, on both sides of a function and wherever their
temporaries start. No pointer is given two layouts, and what is loaded or stored with a pointer, in
whatever body, ends inside of the area with the layout that the pointer is given, at a multiple of
its own size. -/
theorem plan_accesses_in_bounds (abi : Abi) (module : Option String) (name : String) (func : TypeId)
    (direction : Direction) (k : Nat) (p : FunctionPlan)
    (h : ((abi.planWith module name func direction).run.run k).1 = .ok p) :
    (p.areas.map Prod.fst).Nodup ∧ p.InBounds := by
  have hgives : (abi.planWith module name func direction).Gives k p
      ((abi.planWith module name func direction).run.run k).2 := Prod.ext h rfl
  obtain ⟨hsig, hmade⟩ := (meets_planWith abi module name func direction k).2 p _ hgives
  obtain ⟨hbounds, hl⟩ := (inBounds_planWith abi module name func direction k).2 p _ hgives
  exact ⟨FunctionPlan.nodup_areas hmade (signed_of_functionSignature hsig) hl, hbounds⟩

theorem plan_accesses_in_bounds_packet :
    (∃ p, packet.plan (some "host") "shuffle" ⟨4⟩ .imported = .ok p ∧
      (p.areas.map Prod.fst).Nodup ∧ p.InBounds) ∧
    ∃ p, packet.plan (some "host") "shuffle" ⟨4⟩ .exported = .ok p ∧
      p.areas = [(⟨4⟩, ⟨1, 1⟩), (⟨10⟩, ⟨1, 1⟩), (⟨15⟩, ⟨1, 1⟩), (⟨20⟩, ⟨1, 1⟩), (⟨3⟩, ⟨8, 4⟩),
        (⟨17⟩, ⟨8, 4⟩)] ∧
      (p.areas.map Prod.fst).Nodup ∧ p.InBounds :=
  ⟨⟨_, rfl, plan_accesses_in_bounds packet (some "host") "shuffle" ⟨4⟩ .imported 0 _ rfl⟩,
    _, rfl, rfl, plan_accesses_in_bounds packet (some "host") "shuffle" ⟨4⟩ .exported 0 _ rfl⟩

end Abi

end ComponentAbi
