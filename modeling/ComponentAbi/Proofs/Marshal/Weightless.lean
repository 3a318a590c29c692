import ComponentAbi.Proofs.Marshal.Transparency

/-!
# Lists of items without size

Items of a type without size, records and tuples of nothing, take up no room. Lowering a list of
them hands out no block, and its address is the alignment, which is 1
(`Abi.runOn_lowerFlat_weightless`). Lifting is another matter: it counts every item as one byte, so
that a length that was made up does not build a list of billions of items. So a list comes back if
it is empty or shorter than the memory, whatever the memory holds, and otherwise there is an error
(`Abi.liftFlat_weightless`). The same goes for lists in the arguments and results of a call
(`Abi.weightless_lists_return`).
-/

namespace ComponentAbi

variable {abi : Abi} {m : Memory}

/-! ### Nothing is stored -/

mutual

/-- What takes up no room changes nothing when it is stored, is stored anywhere, and has no lists in
it. -/
theorem Fits.weightless {s : Shape} {n : Native} {l : Layout} (m : Memory) (p : Nat) :
    Fits abi s n → s.layout = .ok l → l.size = 0 →
      MemoryM.runOn (abi.storeNative s n p) m = (.ok (), m) ∧ Stored abi m s n p [] ∧
        ∀ P, EveryList abi P s n
  | .leaf (l := lf) _, hl, hz => by
    rw [Shape.layout] at hl
    obtain ⟨-, -, rfl⟩ := Except.map_eq_ok.1 hl
    exact absurd hz lf.aligning_width.pos.ne'
  | .text .., hl, hz | .list .., hl, hz => by
    cases hl
    cases hz
  | @Fits.product _ _ fields _ fit, hl, hz => by
    rw [Shape.layout] at hl
    obtain ⟨ls, hls, rfl⟩ := Except.map_eq_ok.1 hl
    have hsizes := (Layout.size_sequence_eq_zero (Shape.aligning_fields fields hls)).1 hz
    have ho : Shape.fieldOffsets fields = .ok (Layout.offsets ls) := by
      rw [Shape.fieldOffsets, hls]
      rfl
    obtain ⟨hrun, hrow, hlists⟩ := fit.weightless m (Layout.offsets ls) p
      (Shape.length_fieldOffsets ho) hls hsizes
    exact ⟨(MemoryM.runOn_bind_liftM ho _ m).trans hrun, .product ho hrow, hlists⟩
  | .bare .., hl, hz | .payload .., hl, hz => absurd hz (Shape.size_sum_ne_zero hl)

theorem FitsRow.weightless {fields : List (String × Shape)} {parts : List Native}
    {ls : List Layout} (m : Memory) (offsets : List Nat) (p : Nat) : FitsRow abi fields parts →
      offsets.length = fields.length → Shape.fieldLayouts fields = .ok ls →
      (∀ l ∈ ls, l.size = 0) →
      MemoryM.runOn (abi.storeRow (Shape.row fields offsets p) parts) m = (.ok (), m) ∧
        StoredRow abi m (Shape.row fields offsets p) parts [] ∧
        ∀ P, EveryListRow abi P fields parts
  | .nil, hlen, _, _ => by
    obtain rfl := List.length_eq_zero_iff.1 hlen
    exact ⟨rfl, .nil, fun _ => trivial⟩
  | .cons head tail, hlen, hls, hz => by
    obtain ⟨l, ls, hl, hrest, rfl⟩ := Shape.fieldLayouts_cons hls
    obtain ⟨hz, hzrest⟩ := List.forall_mem_cons.1 hz
    cases offsets with
    | nil => cases hlen
    | cons offset offsets =>
      obtain ⟨hhead, hstored, hlists⟩ := head.weightless m (p + offset) hl hz
      obtain ⟨htail, hrow, hmore⟩ := tail.weightless m offsets p (Nat.succ.inj hlen) hrest hzrest
      exact ⟨(MemoryM.runOn_bind_of_ok hhead _).trans htail, .cons hstored hrow,
        fun P => ⟨hlists P, hmore P⟩⟩

end

/-- Items without size are stored one over the other. -/
theorem weightless_slots {s : Shape} {items : List Native} {l : Layout} (m : Memory)
    (start first : Nat) (hf : ∀ n ∈ items, Fits abi s n) (hl : s.layout = .ok l)
    (hz : l.size = 0) :
    MemoryM.runOn (abi.storeRow (Shape.slots s start l.size first items.length) items) m =
        (.ok (), m) ∧
      StoredRow abi m (Shape.slots s start l.size first items.length) items [] ∧
      ∀ P, EveryListItems abi P s items := by
  induction items generalizing first with
  | nil => exact ⟨rfl, .nil, fun _ => trivial⟩
  | cons n items ih =>
    obtain ⟨hn, hrest⟩ := List.forall_mem_cons.1 hf
    obtain ⟨hhead, hstored, hlists⟩ := hn.weightless m (start + first * l.size) hl hz
    obtain ⟨htail, hrow, hmore⟩ := ih (first + 1) hrest
    exact ⟨(MemoryM.runOn_bind_of_ok hhead _).trans htail, .cons hstored hrow,
      fun P => ⟨hlists P, hmore P⟩⟩

/-- Of a list of such items, only their number matters. -/
theorem everyList_weightless {element : TypeId} {items : List Native} {l : Layout} {room : Nat}
    (hf : ∀ n ∈ items, Fits abi (abi.shape element) n)
    (hl : (abi.shape element).layout = .ok l) (hz : l.size = 0) :
    EveryList abi (Layout.Readable room) (.list element) (.list items) ↔
      (items.length ≠ 0 → items.length < room ∧ items.length < UInt32.size) := by
  have hstride : l.size < UInt32.size := hz ▸ Nat.le_of_ble_eq_true rfl
  refine ⟨fun h hne => (h.1 l hl).2 hne hz, fun h => ⟨fun l' hl' => ?_, ?_⟩⟩
  · cases hl.symm.trans hl'
    exact ⟨fun _ => hstride, fun hne _ => h hne⟩
  · exact (weightless_slots {} 1 0 hf hl hz).2.2 _

/-- In every memory, there is a list of such items behind the null address. Its length is what is
left of their number in a word. -/
theorem listAt_weightless {element : TypeId} {items : List Native} {l : Layout} (m : Memory)
    (hf : ∀ n ∈ items, Fits abi (abi.shape element) n)
    (hl : (abi.shape element).layout = .ok l) (hz : l.size = 0) :
    ListAt abi m element items 1 (items.length % UInt32.size) [] := by
  have halign := Shape.align_eq_one _ hl hz
  have harea : Block.ofArea 1 (l.size * items.length) l.align = [] := by
    rw [hz, Nat.zero_mul]
    rfl
  have h := ListAt.mk hl (Nat.le_of_ble_eq_true rfl : 1 < UInt32.size) rfl (fun hlt => ?_)
    (fun hpos => ?_) (weightless_slots m 1 0 hf hl hz).2.1 fun _ => halign.symm
  · rwa [harea] at h
  · rw [hz, Nat.zero_mul] at hlt
    exact absurd hlt (Nat.lt_irrefl 1)
  · exact absurd hz hpos.ne'

namespace Abi

open MemoryM

variable {list element : TypeId} {l : Layout} {items : List Value} {n : Native}

/-! ### Lowering and lifting -/

/-- The items of a list that can be read. -/
theorem exists_items_of_native (hc : abi.arena.CasesFit) (hlist : abi.shape list = .list element)
    (hn : abi.native list (.list items) = .ok n) : ∃ ns, n = .list ns ∧ ns.length = items.length ∧
      ∀ item ∈ ns, Fits abi (abi.shape element) item := by
  rw [native, hlist] at hn
  obtain ⟨_, -, hn⟩ := Except.bind_eq_ok.1 hn
  obtain ⟨ns, hns, hn⟩ := Except.bind_eq_ok.1 hn
  cases hn
  refine ⟨ns, rfl, Except.length_of_mapM hns, fun item hitem => ?_⟩
  obtain ⟨v, -, hv⟩ := Except.exists_of_mem_mapM hns hitem
  exact fits_nativeWithin hc (indexable_shape hc element) hv

/-- Lowering such a list leaves the memory as it is. -/
theorem runOn_lowerFlat_weightless (hc : abi.arena.CasesFit)
    (hlist : abi.shape list = .list element) (hl : abi.layout element = .ok l) (hz : l.size = 0)
    (hn : abi.native list (.list items) = .ok n) (m : Memory) :
    runOn (abi.lowerFlat list (.list items)) m =
      (.ok [Word.ofNat 1, Word.ofNat items.length], m) := by
  obtain ⟨ns, rfl, hlen, hfits⟩ := exists_items_of_native hc hlist hn
  rw [lowerFlat, lowerWithin_native hn, hlist, ← hlen]
  have halign : l.align = 1 := Shape.align_eq_one _ hl hz
  have halloc : runOn (MemoryM.alloc (l.size * ns.length) l.align) m = (.ok 1, m) := by
    rw [runOn_alloc, hz, Nat.zero_mul, halign, Memory.alloc_zero m Nat.one_pos]
    rfl
  have hstore := (weightless_slots m 1 0 hfits hl hz).1
  have hblock : runOn (abi.inBlock element ns.length fun places => abi.storeRow places ns) m =
      (.ok (1, ns.length), m) :=
    (runOn_bind_liftM hl _ m).trans
      ((runOn_bind_of_ok halloc _).trans (runOn_bind_of_ok hstore _))
  exact runOn_bind_of_ok hblock _

/-- Of such a list, only the length is looked at. -/
theorem loadItems_weightless {load : Shape → Nat → Except AbiError Value} {start length : Nat}
    (hl : abi.layout element = .ok l) (hz : l.size = 0) (hlt : length < UInt32.size) :
    abi.loadItems m load element start length =
      if length = 0 ∨ start + length ≤ m.size then
        (List.range length).mapM fun i => load (abi.shape element) (start + i * l.size)
      else .error (.invalidMemoryPointer start length m.size) := by
  have hlayout : (abi.shape element).layout = .ok l := hl
  have hbytes : itemBytes m start l.size length = .ok length := by
    rw [hz]
    have hone : max 0 1 * length = length := Nat.one_mul length
    exact itemBytes_eq_ok.2 ⟨Nat.le_of_ble_eq_true rfl, hone.symm ▸ hlt, hone.symm⟩
  simp only [loadItems, hlayout, bind, Except.bind, hbytes, Memory.read]
  by_cases hzero : length = 0
  · simp [hzero]
  · by_cases hle : start + length ≤ m.size <;> simp [hzero, hle]

/-- A list is lifted from an address and a length. -/
theorem liftFlat_list (hlist : abi.shape list = .list element) (m : Memory) (start length : Nat)
    (hstart : start < UInt32.size) (hlength : length < UInt32.size) :
    ∃ d, abi.liftFlat m list [Word.ofNat start, Word.ofNat length] =
      (abi.loadItems m (abi.loadWithin m d) element start length).map .list := by
  have hpos : 0 < abi.nestingBound m := Nat.mul_pos (Nat.succ_pos _) (Nat.succ_pos _)
  obtain ⟨d, hd⟩ : ∃ d, abi.nestingBound m = d + 1 := ⟨abi.nestingBound m - 1, by omega⟩
  refine ⟨d, ?_⟩
  rw [liftFlat, hlist, hd, readWithin, WordReader.ofList]
  simp only [bind, Except.bind, WordReader.next_ofNat hstart, WordReader.next_ofNat hlength]
  cases abi.loadItems m _ element start length <;> rfl

/-- Such a list is lifted if it is empty or shorter than the memory, and otherwise there is an
error. -/
theorem liftFlat_weightless (hc : abi.arena.CasesFit) (hlist : abi.shape list = .list element)
    (hl : abi.layout element = .ok l) (hz : l.size = 0)
    (hn : abi.native list (.list items) = .ok n) (m : Memory) :
    (abi.liftFlat m list [Word.ofNat 1, Word.ofNat items.length] =
        .ok (abi.normalize list (.list items)) ↔
      items = [] ∨ items.length < m.size ∧ items.length < UInt32.size) ∧
    (items ≠ [] → items.length < UInt32.size → m.size ≤ items.length →
      abi.liftFlat m list [Word.ofNat 1, Word.ofNat items.length] =
        .error (.invalidMemoryPointer 1 items.length m.size)) := by
  have hone : 1 < UInt32.size := Nat.le_of_ble_eq_true rfl
  have hword : Word.ofNat items.length = Word.ofNat (items.length % UInt32.size) :=
    congrArg Word.i32 (UInt32.ofNat_mod_size).symm
  have hmod : items.length % UInt32.size < UInt32.size := Nat.mod_lt _ (Nat.lt_of_succ_lt hone)
  obtain ⟨d, hlift⟩ := liftFlat_list hlist m 1 _ hone hmod
  rw [loadItems_weightless hl hz hmod, ← hword] at hlift
  refine ⟨⟨fun h => ?_, fun h => ?_⟩, fun hne hlt hle => ?_⟩
  · -- As many items come back as the length says.
    rw [or_iff_not_imp_left]
    intro hne
    have hpos := List.length_pos_of_ne_nil hne
    rw [h, normalize, hlist] at hlift
    obtain ⟨vs, hvs, he⟩ := Except.map_eq_ok.1 hlift.symm
    have hlen : vs.length = items.length := by
      rw [Value.list.inj he, List.length_map]
    split at hvs
    · rename_i hcond
      have hcount := Except.length_of_mapM hvs
      rw [List.length_range] at hcount
      have hsame : items.length % UInt32.size = items.length := hcount.symm.trans hlen
      rw [hsame] at hcond hmod
      omega
    · cases hvs
  · obtain ⟨ns, rfl, hlen, hfits⟩ := exists_items_of_native hc hlist hn
    have hcarried := Carried.list (listAt_weightless m hfits hl hz)
    rw [hlen, ← hword, ← hlist] at hcarried
    have hread : EveryList abi (Layout.Readable m.size) (abi.shape list) (.list ns) := by
      rw [hlist, everyList_weightless hfits hl hz, hlen]
      exact fun hne => h.resolve_left fun hnil => hne (List.length_eq_zero_iff.2 hnil)
    have hs := indexable_shape hc list
    rw [liftFlat_of_carried (fits_nativeWithin hc hs hn) hcarried hread (Nat.zero_le _),
      value_nativeWithin hc hs hn, normalize]
  · have hpos := List.length_pos_of_ne_nil hne
    rw [Nat.mod_eq_of_lt hlt, if_neg (by omega)] at hlift
    exact hlift

/-- A list of values that take up no room. -/
structure WeightlessList (abi : Abi) (list element : TypeId) (items : List Value) : Prop where
  /-- The type is that of lists of the elements. -/
  found : ∃ resolved, abi.lookup list = .ok (resolved, .list element)
  /-- The elements take up no room. -/
  weightless : ∃ l, abi.layout element = .ok l ∧ l.size = 0
  /-- The items are of that type. -/
  typed : ∃ n, abi.native list (.list items) = .ok n

theorem WeightlessList.shape_eq (h : abi.WeightlessList list element items) :
    abi.shape list = .list element := by
  obtain ⟨resolved, hfound⟩ := h.found
  rw [shape, unfold, hfound]
  exact if_neg List.not_mem_nil

theorem WeightlessList.listsRoomy_iff (hc : abi.arena.CasesFit)
    (h : abi.WeightlessList list element items) (room : Nat) :
    abi.ListsRoomy room list (.list items) ↔
      items = [] ∨ items.length < room ∧ items.length < UInt32.size := by
  obtain ⟨l, hl, hz⟩ := h.weightless
  obtain ⟨n, hn⟩ := h.typed
  obtain ⟨ns, rfl, hlen, hfits⟩ := exists_items_of_native hc h.shape_eq hn
  rw [← List.length_eq_zero_iff, or_iff_not_imp_left, ← hlen,
    ← everyList_weightless hfits hl hz, ← h.shape_eq]
  refine ⟨fun hlists => hlists _ hn, fun hread n' hn' => ?_⟩
  cases hn.symm.trans hn'
  exact hread

/-- Lists of items without size are lowered without changing the memory. They are lifted again, from
any memory, if they are empty or have fewer items than there are bytes, and otherwise this is an
error. A call is transparent for them if that is so of the lists in its arguments when these have
been lowered, and of the lists in its results when these have. -/
theorem weightless_lists_return (hc : abi.arena.CasesFit) :
    (∀ list element items, abi.WeightlessList list element items →
      (∀ room, abi.ListsRoomy room list (.list items) ↔
        items = [] ∨ items.length < room ∧ items.length < UInt32.size) ∧
      ∀ m, runOn (abi.lowerFlat list (.list items)) m =
          (.ok [Word.ofNat 1, Word.ofNat items.length], m) ∧
        (abi.liftFlat m list [Word.ofNat 1, Word.ofNat items.length] =
            .ok (abi.normalize list (.list items)) ↔ abi.ListsRoomy m.size list (.list items)) ∧
        (items ≠ [] → items.length < UInt32.size → m.size ≤ items.length →
          abi.liftFlat m list [Word.ofNat 1, Word.ofNat items.length] =
            .error (.invalidMemoryPointer 1 items.length m.size)) ∧
        (abi.Normal list (.list items) → abi.normalize list (.list items) = .list items)) ∧
    ∀ func sig args results callee m, abi.functionSignature func = .ok sig →
      abi.Deliverable (runOn (abi.lowerParams sig args) m).2.size sig.paramTypes args →
      callee (abi.normalizeAll sig.paramTypes args) = .ok results →
      (∀ lowered params m₁, runOn (abi.passParams sig args) m = (.ok (lowered, params), m₁) →
        abi.Deliverable (runOn (abi.lowerResults sig lowered results) m₁).2.size sig.resultTypes
          results) →
      (runOn (abi.call sig args callee) m).2.size < UInt32.size →
      (∃ lowered m', runOn (abi.passParams sig args) m =
        (.ok (lowered, abi.normalizeAll sig.paramTypes args), m')) ∧
      ∃ outcome m', runOn (abi.call sig args callee) m = (.ok outcome, m') ∧
        outcome.results = abi.normalizeAll sig.resultTypes results := by
  refine ⟨fun list element items h => ⟨h.listsRoomy_iff hc, fun m => ?_⟩,
    fun func sig args results callee m hsig hargs hcallee hresults hm =>
      runOn_call hc (signed_of_functionSignature hsig) hargs hcallee hresults hm⟩
  obtain ⟨l, hl, hz⟩ := h.weightless
  obtain ⟨n, hn⟩ := h.typed
  obtain ⟨hlift, hfail⟩ := liftFlat_weightless hc h.shape_eq hl hz hn m
  exact ⟨runOn_lowerFlat_weightless hc h.shape_eq hl hz hn m,
    hlift.trans (h.listsRoomy_iff hc m.size).symm, hfail, normalizeWithin_of_normal⟩

/-- Empty tuples, lists of them, and two functions that take such a list. One also answers one. -/
def units : Abi where
  arena := ⟨#[.tuple [], .list ⟨0⟩, .function { params := [("xs", ⟨1⟩)], results := [⟨1⟩] },
    .function { params := [("xs", ⟨1⟩)], results := [] }]⟩

/-- The signature of the function that answers a list, which it does through an area. -/
def unitsSignature : Signature where
  paramTypes := [⟨1⟩]
  resultTypes := [⟨1⟩]
  flatParams := [.i32, .i32]
  flatResults := [.i32, .i32]
  coreParams := [.i32, .i32, .i32]
  coreResults := []
  paramArea := none
  returnArea := some { size := 8, align := 4 }
  needsPostReturn := true
  paramsTransferHandles := false
  resultsTransferHandles := false

/-- The signature of the function that answers nothing. -/
def sinkSignature : Signature where
  paramTypes := [⟨1⟩]
  resultTypes := []
  flatParams := [.i32, .i32]
  flatResults := []
  coreParams := [.i32, .i32]
  coreResults := []
  paramArea := none
  returnArea := none
  needsPostReturn := false
  paramsTransferHandles := false
  resultsTransferHandles := false

theorem weightlessList_units : units.WeightlessList ⟨1⟩ ⟨0⟩ [.tuple [], .tuple []] where
  found := ⟨_, rfl⟩
  weightless := ⟨_, rfl, rfl⟩
  typed := ⟨_, rfl⟩

theorem deliverable_units {room : Nat} (h : 2 < room) :
    units.Deliverable room [⟨1⟩] [.list [.tuple [], .tuple []]] where
  length := rfl
  typed entry hm := by
    cases List.mem_singleton.1 hm
    exact ⟨_, rfl⟩
  roomy entry hm := by
    cases List.mem_singleton.1 hm
    exact (weightlessList_units.listsRoomy_iff (by decide) room).2 (.inr ⟨h, by decide⟩)

/-- The area for the results makes the memory large enough for a call. -/
theorem weightless_lists_return_units :
    units.liftFlat ⟨[0, 0, 0], []⟩ ⟨1⟩ [.i32 1, .i32 2] = .ok (.list [.tuple [], .tuple []]) ∧
      ∃ outcome m', runOn (units.call unitsSignature [.list [.tuple [], .tuple []]] .ok) {} =
        (.ok outcome, m') ∧ outcome.results = [.list [.tuple [], .tuple []]] := by
  obtain ⟨hlists, hcalls⟩ := weightless_lists_return (by decide : units.arena.CasesFit)
  obtain ⟨hroomy, hlist⟩ := hlists _ _ _ weightlessList_units
  obtain ⟨-, hlift, -⟩ := hlist ⟨[0, 0, 0], []⟩
  refine ⟨hlift.2 ((hroomy _).2 (.inr ⟨by decide, by decide⟩)), ?_⟩
  have hsig : units.functionSignature ⟨2⟩ = .ok unitsSignature := rfl
  refine (hcalls _ _ _ _ _ _ hsig (deliverable_units (by decide +kernel)) rfl ?_
    (by decide +kernel)).2
  intro lowered params m₁ h
  have hpass : runOn (units.passParams unitsSignature [.list [.tuple [], .tuple []]]) {} =
      (.ok (⟨[.i32 1, .i32 2, .i32 4], some 4⟩, [.list [.tuple [], .tuple []]]),
        ⟨List.replicate 12 0, [⟨4, 8, 4, true⟩]⟩) := rfl
  cases hpass.symm.trans h
  exact deliverable_units (by decide +kernel)

/-- A list of one empty tuple is lowered into an empty memory, and does not come back from there,
nor through a call. -/
theorem weightless_list_lost :
    units.WeightlessList ⟨1⟩ ⟨0⟩ [.tuple []] ∧
      runOn (units.lowerFlat ⟨1⟩ (.list [.tuple []])) {} = (.ok [.i32 1, .i32 1], {}) ∧
      units.liftFlat {} ⟨1⟩ [.i32 1, .i32 1] = .error (.invalidMemoryPointer 1 1 0) ∧
      units.functionSignature ⟨3⟩ = .ok sinkSignature ∧
      runOn (units.call sinkSignature [.list [.tuple []]] fun _ => .ok []) {} =
        (.error (.invalidMemoryPointer 1 1 0), {}) :=
  ⟨⟨⟨_, rfl⟩, ⟨_, rfl, rfl⟩, ⟨_, rfl⟩⟩, rfl, rfl, rfl, rfl⟩

end Abi

end ComponentAbi
