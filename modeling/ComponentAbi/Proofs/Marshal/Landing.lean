import ComponentAbi.Proofs.Marshal.Stored
import ComponentAbi.Proofs.Native.Lower

/-!
# Where lowered values land

Storing a native value of the type succeeds wherever there is room for it, hands out the blocks that
the value owns, and writes nothing but its area and those blocks (`Fits.lands`). Passing it as words
hands out blocks and writes nothing else (`Fits.passes`). As long as addresses fit words, the value
is then in memory.
-/

namespace ComponentAbi

open Memory MemoryM

variable {abi : Abi} {m : Memory} {p lo hi : Nat}

/-! ### Numbers -/

theorem runOn_writeNat {width : Nat} (hc : m.Covers p (p + width)) (n : Nat) :
    ∃ m', runOn (writeNat p width n) m = (.ok (), m') ∧ m'.size = m.size ∧
      Grows p (p + width) [] m m' ∧ m'.readNat p width = .ok (n % 256 ^ width) := by
  have hroom : LittleEndian.bytes width n = [] ∨
      p + (LittleEndian.bytes width n).length ≤ m.size := by
    by_cases hz : width = 0
    · subst hz
      exact .inl rfl
    · rw [LittleEndian.length_bytes]
      exact .inr (hc (by omega))
  obtain ⟨m', hw, hsize, hg, hr⟩ := write_eq_ok hroom
  rw [LittleEndian.length_bytes] at hg hr
  refine ⟨m', ?_, hsize, hg, ?_⟩
  · rw [writeNat, runOn_write, hw]
  · rw [readNat, hr, Except.map, LittleEndian.value_bytes]

theorem runOn_storePair (hc : m.Covers p (p + 8)) (a b : Nat) :
    ∃ m', runOn (storePair p (a, b)) m = (.ok (), m') ∧ Grows p (p + 8) [] m m' ∧
      m'.readNat p 4 = .ok (a % UInt32.size) ∧ m'.readNat (p + 4) 4 = .ok (b % UInt32.size) := by
  have hc₁ : m.Covers p (p + 4) := hc.mono (Nat.le_refl _) (by omega)
  have hc₂ : m.Covers (p + 4) (p + 4 + 4) := hc.mono (by omega) (by omega)
  obtain ⟨m₁, h₁, hs₁, hg₁, hr₁⟩ := runOn_writeNat hc₁ a
  obtain ⟨m₂, h₂, -, hg₂, hr₂⟩ := runOn_writeNat (hc₂.grows hg₁) b
  refine ⟨m₂, ?_, ?_, ?_, hr₂⟩
  · rw [storePair, runOn_bind_of_ok h₁, h₂]
  · exact (hg₁.widen fun i _ h h' => by omega).trans (hg₂.widen fun i _ h h' => by omega)
  · exact (hg₂.sameOn (hc₁.grows hg₁) (.inl (Nat.le_refl _))).readNat hr₁

/-! ### Places -/

/-- Wherever there is room for the native value, storing it puts it there. -/
def Lands (abi : Abi) (s : Shape) (n : Native) : Prop :=
  ∀ (l : Layout) (p : Nat) (m : Memory), s.layout = .ok l → m.Covers p (p + l.size) →
    ∃ m' bs, runOn (abi.storeNative s n p) m = (.ok (), m') ∧ Grows p (p + l.size) bs m m' ∧
      (m'.size < UInt32.size → Stored abi m' s n p bs)

/-- Blocks that were handed out since are not written to by what only writes into older bytes. -/
theorem sameIn_of_grows {m₁ m₂ : Memory} {lo' hi' : Nat} {bs bs' : List Block}
    (h₁ : Grows lo hi bs m m₁) (h₂ : Grows lo' hi' bs' m₁ m₂) (hc : m.Covers lo' hi') :
    SameIn bs m₁ m₂ := by
  intro b hb
  obtain ⟨hlo, hhi, -⟩ := h₁.packed.of_mem hb
  refine h₂.sameOn (fun _ => hhi) ?_
  by_cases hlt : lo' < hi'
  · have := hc hlt
    omega
  · omega

/-- Storing native values in their places puts each of them there. -/
theorem runOn_storeRow {places : List (Shape × Nat)} {ns : List Native}
    (h : List.Forall₂ (fun place n => Lands abi place.1 n) places ns)
    (hp : Shape.Placed lo hi places) (hc : m.Covers lo hi) :
    ∃ m' bs, runOn (abi.storeRow places ns) m = (.ok (), m') ∧ Grows lo hi bs m m' ∧
      (m'.size < UInt32.size → StoredRow abi m' places ns bs) := by
  induction h generalizing m lo with
  | nil => exact ⟨m, [], rfl, Grows.refl m, fun _ => .nil⟩
  | @cons place n places ns hn _ ih =>
    obtain ⟨s, p⟩ := place
    obtain ⟨l, hl, hle, hr⟩ := hp
    have hend := hr.le
    obtain ⟨m₁, bs₁, h₁, hg₁, hs₁⟩ := hn l p m hl (hc.mono hle hend)
    have hrest : m.Covers (p + l.size) hi := hc.mono (by omega) (Nat.le_refl _)
    obtain ⟨m₂, bs₂, h₂, hg₂, hs₂⟩ := ih hr (hrest.grows hg₁)
    refine ⟨m₂, bs₁ ++ bs₂, ?_, ?_, fun hlt => ?_⟩
    · rw [Abi.storeRow, runOn_bind_of_ok h₁, h₂]
    · exact (hg₁.widen fun i _ h h' => by omega).trans (hg₂.widen fun i _ h h' => by omega)
    · have hle₂ := hg₂.size_le
      refine .cons ((hs₁ (by omega)).frame hl ?_ ?_ hle₂) (hs₂ hlt)
      · exact hg₂.sameOn ((hc.mono hle hend).grows hg₁) (.inl (Nat.le_refl _))
      · exact sameIn_of_grows hg₁ hg₂ hrest

theorem forall₂_slots {s : Shape} {items : List Native} (h : ∀ n ∈ items, Lands abi s n)
    (start size first : Nat) :
    List.Forall₂ (fun place n => Lands abi place.1 n)
      (Shape.slots s start size first items.length) items := by
  induction items generalizing first with
  | nil => exact .nil
  | cons n items ih =>
    obtain ⟨hn, hrest⟩ := List.forall_mem_cons.1 h
    exact .cons hn (ih hrest (first + 1))

/-- Storing the items of a list puts them into a block of their own. -/
theorem runOn_inBlock {element : TypeId} {items : List Native} {layout : Layout}
    (hl : (abi.shape element).layout = .ok layout)
    (h : ∀ n ∈ items, Lands abi (abi.shape element) n) (m : Memory) (lo hi : Nat) :
    ∃ start bs m', runOn (abi.inBlock element items.length fun places =>
        abi.storeRow places items) m = (.ok (start, items.length), m') ∧
      Grows lo hi bs m m' ∧
      (m'.size < UInt32.size →
        ListAt abi m' element items start (items.length % UInt32.size) bs) := by
  have ha := Shape.align_pos hl
  have hplaced := Shape.placed_slots hl (m.alloc (layout.size * items.length) layout.align).1 0
    items.length
  rw [Nat.zero_mul, Nat.add_zero, Nat.zero_add, Nat.mul_comm items.length] at hplaced
  have hc := covers_alloc m (layout.size * items.length) ha
  obtain ⟨m', bs, hrun, hg, hs⟩ := runOn_storeRow (forall₂_slots h _ layout.size 0) hplaced hc
  refine ⟨(m.alloc (layout.size * items.length) layout.align).1, _, m', ?_, hg.of_alloc ha,
    fun hlt => ?_⟩
  · rw [Abi.inBlock, hl, runOn_bind_of_ok (runOn_liftM _ m),
      runOn_bind_of_ok (runOn_alloc _ _ m), runOn_bind_of_ok hrun]
    rfl
  · have hsize := hg.size_le
    refine .mk hl ?_ rfl (hc.grows hg) (fun hpos => ?_) (hs hlt) fun hz => ?_
    · exact alloc_start_lt m ha (Nat.lt_of_le_of_lt hsize hlt)
    · by_cases hz : layout.size * items.length = 0
      · rw [hz]
        exact Nat.le_of_ble_eq_true rfl
      · have := hc (by omega)
        omega
    · rw [hz, Nat.zero_mul]
      have hle := Shape.align_le _ hl
      have hword : 8 < UInt32.size := Nat.le_of_ble_eq_true rfl
      rw [alloc_zero m ha, Nat.mod_eq_of_lt (by omega)]

mutual

/-- Native values of a type land wherever they are stored. -/
theorem Fits.lands {s : Shape} {n : Native} : Fits abi s n → Lands abi s n
  | .leaf (l := lf) holds, l, p, m, hl, hc => by
    rw [Shape.layout] at hl
    obtain ⟨-, -, rfl⟩ := Except.map_eq_ok.1 hl
    obtain ⟨m', hrun, -, hg, hr⟩ := runOn_writeNat hc _
    refine ⟨m', [], ?_, hg, fun _ => .leaf holds hr⟩
    rw [Abi.storeNative, holds.encode, runOn_bind_of_ok (runOn_liftM _ m), hrun]
  | .text text, l, p, m, hl, hc => by
    cases hl
    obtain ⟨start, length, bs, m₁, h₁, hg₁, ht⟩ := runOn_lowerString m text p (p + 8)
    obtain ⟨m₂, h₂, hg₂, hp, hn⟩ := runOn_storePair (hc.grows hg₁) start length
    refine ⟨m₂, bs ++ [], ?_, hg₁.trans hg₂, fun hlt => ?_⟩
    · rw [Abi.storeNative, runOn_bind_of_ok h₁, h₂]
    · have ht := ht (Nat.lt_of_le_of_lt hg₂.size_le hlt)
      rw [Nat.mod_eq_of_lt ht.start_lt] at hp
      rw [Nat.mod_eq_of_lt ht.length_lt] at hn
      rw [List.append_nil]
      exact .text hp hn (ht.frame (sameIn_of_grows hg₁ hg₂ hc))
  | .list laid fit, l, p, m, hl, hc => by
    cases hl
    obtain ⟨start, bs, m₁, h₁, hg₁, hi⟩ :=
      runOn_inBlock laid (fun n hn => (fit n hn).lands) m p (p + 8)
    obtain ⟨m₂, h₂, hg₂, hp, hn⟩ := runOn_storePair (hc.grows hg₁) start _
    refine ⟨m₂, bs ++ [], ?_, hg₁.trans hg₂, fun hlt => ?_⟩
    · rw [Abi.storeNative, runOn_bind_of_ok h₁, h₂]
    · have hi := hi (Nat.lt_of_le_of_lt hg₂.size_le hlt)
      have hstart : start < UInt32.size := by
        cases hi with
        | mk laid start_lt => exact start_lt
      rw [Nat.mod_eq_of_lt hstart] at hp
      rw [List.append_nil]
      exact .list hp hn (hi.frame (sameIn_of_grows hg₁ hg₂ hc) hg₂.size_le)
  | @Fits.product _ _ fields _ fit, l, p, m, hl, hc => by
    have ho : ∃ offsets, Shape.fieldOffsets fields = .ok offsets := by
      rw [Shape.layout] at hl
      obtain ⟨ls, hls, -⟩ := Except.map_eq_ok.1 hl
      exact ⟨_, by rw [Shape.fieldOffsets, hls]; rfl⟩
    obtain ⟨offsets, ho⟩ := ho
    obtain ⟨m', bs, hrun, hg, hs⟩ := runOn_storeRow
      (fit.lands offsets p (Shape.length_fieldOffsets ho)) (Shape.placed_fields ho hl p) hc
    refine ⟨m', bs, ?_, hg, fun hlt => .product ho (hs hlt)⟩
    rw [Abi.storeNative, ho, runOn_bind_of_ok (runOn_liftM _ m), hrun]
  | @Fits.bare _ kind cases _ _ case lt, l, p, m, hl, hc => by
    have hsl : ∃ sl, Shape.sumLayout kind cases = .ok sl := by
      rw [Shape.layout] at hl
      obtain ⟨ls, hls, -⟩ := Except.map_eq_ok.1 hl
      exact ⟨_, by rw [Shape.sumLayout, hls]; rfl⟩
    obtain ⟨sl, laid⟩ := hsl
    cases (Shape.layout_sum laid).symm.trans hl
    obtain ⟨hd, hle, ho, -⟩ := Shape.payload_inside laid
    have hsize : sl.layout.size = sl.size := rfl
    have hc₁ : m.Covers p (p + sl.discriminantSize) := hc.mono (Nat.le_refl _) (by omega)
    obtain ⟨m', hrun, -, hg, hr⟩ := runOn_writeNat hc₁ _
    rw [Nat.mod_eq_of_lt (hd ▸ lt)] at hr
    refine ⟨m', [], ?_, hg.widen fun i _ h h' => by omega, fun _ => .bare case laid hr⟩
    rw [Abi.storeNative, laid, runOn_bind_of_ok (runOn_liftM _ m), runOn_bind_of_ok hrun, case]
    rfl
  | @Fits.payload _ kind cases _ _ _ _ case lt fit, l, p, m, hl, hc => by
    have hsl : ∃ sl, Shape.sumLayout kind cases = .ok sl := by
      rw [Shape.layout] at hl
      obtain ⟨ls, hls, -⟩ := Except.map_eq_ok.1 hl
      exact ⟨_, by rw [Shape.sumLayout, hls]; rfl⟩
    obtain ⟨sl, laid⟩ := hsl
    cases (Shape.layout_sum laid).symm.trans hl
    obtain ⟨hd, hle, ho, hin⟩ := Shape.payload_inside laid
    obtain ⟨l', hl', hend⟩ := hin _ _ (List.mem_of_getElem? case)
    have hsize : sl.layout.size = sl.size := rfl
    have hc₁ : m.Covers p (p + sl.discriminantSize) := hc.mono (Nat.le_refl _) (by omega)
    have hc₂ : m.Covers (p + sl.payloadOffset) (p + sl.payloadOffset + l'.size) :=
      hc.mono (by omega) (by omega)
    obtain ⟨m₁, h₁, -, hg₁, hr⟩ := runOn_writeNat hc₁ _
    rw [Nat.mod_eq_of_lt (hd ▸ lt)] at hr
    obtain ⟨m₂, bs, h₂, hg₂, hs⟩ := fit.lands l' (p + sl.payloadOffset) m₁ hl' (hc₂.grows hg₁)
    refine ⟨m₂, [] ++ bs, ?_, ?_, fun hlt => ?_⟩
    · rw [Abi.storeNative, laid, runOn_bind_of_ok (runOn_liftM _ m), runOn_bind_of_ok h₁, case]
      exact h₂
    · exact (hg₁.widen fun i _ h h' => by omega).trans (hg₂.widen fun i _ h h' => by omega)
    · have hsame := hg₂.sameOn (hc₁.grows hg₁) (.inl (by omega))
      exact .payload case laid (hsame.readNat hr) (hs hlt)

theorem FitsRow.lands {fields : List (String × Shape)} {ns : List Native} :
    FitsRow abi fields ns → ∀ (offsets : List Nat) (p : Nat), offsets.length = fields.length →
      List.Forall₂ (fun place n => Lands abi place.1 n) (Shape.row fields offsets p) ns
  | .nil, _, _, _ => .nil
  | .cons head tail, [], _, h => by cases h
  | .cons head tail, _ :: offsets, p, h =>
    .cons head.lands (tail.lands offsets p (Nat.succ.inj h))

end

/-! ### Words -/

/-- Passing the native value as words gives words of the kinds that the type has, and hands out the
blocks that the value owns. -/
def Passes (abi : Abi) (s : Shape) (n : Native) : Prop :=
  ∀ (kinds : List CoreType) (m : Memory), s.flatten = .ok kinds →
    ∃ ws m' bs, runOn (abi.lowerNative s n) m = (.ok ws, m') ∧ Grows 0 0 bs m m' ∧
      ws.map Word.kind = kinds ∧ (m'.size < UInt32.size → Carried abi m' s n ws bs)

mutual

/-- Native values of a type are passed as words of the type. -/
theorem Fits.passes {s : Shape} {n : Native} : Fits abi s n → Passes abi s n
  | .leaf (l := lf) holds, kinds, m, hk => by
    rw [Shape.flatten] at hk
    obtain ⟨-, -, rfl⟩ := Except.map_eq_ok.1 hk
    refine ⟨_, m, [], ?_, Grows.refl m, ?_, fun _ => .leaf holds⟩
    · rw [Abi.lowerNative, holds.encode, runOn_bind_of_ok (runOn_liftM _ m)]
      rfl
    · rw [List.map_singleton, Word.kind_ofBits]
  | .text text, kinds, m, hk => by
    cases hk
    obtain ⟨start, length, bs, m', hrun, hg, ht⟩ := runOn_lowerString m text 0 0
    refine ⟨_, m', bs, ?_, hg, rfl, fun hlt => .text (ht hlt)⟩
    rw [Abi.lowerNative, runOn_bind_of_ok hrun]
    rfl
  | @Fits.list _ _ _ items laid fit, kinds, m, hk => by
    cases hk
    obtain ⟨start, bs, m', hrun, hg, hi⟩ := runOn_inBlock laid (fun n hn => (fit n hn).lands) m 0 0
    refine ⟨[Word.ofNat start, Word.ofNat items.length], m', bs, ?_, hg, rfl, fun hlt => ?_⟩
    · rw [Abi.lowerNative, runOn_bind_of_ok hrun]
      rfl
    · have hword : Word.ofNat items.length = Word.ofNat (items.length % UInt32.size) :=
        congrArg Word.i32 UInt32.ofNat_mod_size.symm
      rw [hword]
      exact .list (hi hlt)
  | .product fit, kinds, m, hk => by
    obtain ⟨ws, m', bs, hrun, hg, hkinds, hc⟩ := fit.passes kinds m hk
    refine ⟨ws, m', bs, ?_, hg, hkinds, fun hlt => .product (hc hlt)⟩
    rw [Abi.lowerNative, hrun]
  | @Fits.bare _ _ _ index _ case lt, kinds, m, hk => by
    rw [Shape.flatten] at hk
    obtain ⟨slots, flat, rfl⟩ := Except.map_eq_ok.1 hk
    obtain ⟨filled, fill, hf, -⟩ := @Shape.fillSlots_drainSlots slots [] rfl
    refine ⟨Word.ofNat index :: filled, m, [], ?_, Grows.refl m,
      congrArg (CoreType.i32 :: ·) hf, fun _ => .bare case (SumKind.index_lt lt) flat fill⟩
    rw [Abi.lowerNative, flat, runOn_bind_of_ok (runOn_liftM _ m), case]
    refine (runOn_bind_of_ok (runOn_pure [] m) _).trans ?_
    rw [fill, runOn_bind_of_ok (runOn_liftM _ m)]
    rfl
  | @Fits.payload _ _ _ index _ _ _ case lt fit, kinds, m, hk => by
    rw [Shape.flatten] at hk
    obtain ⟨slots, flat, rfl⟩ := Except.map_eq_ok.1 hk
    obtain ⟨own, hown, hj⟩ := Shape.fits_slots flat (List.mem_of_getElem? case)
    obtain ⟨ws, m', bs, hrun, hg, hkinds, hc⟩ := fit.passes own m hown
    obtain ⟨filled, fill, hf, -⟩ := Shape.fillSlots_drainSlots (hkinds.symm ▸ hj)
    refine ⟨Word.ofNat index :: filled, m', bs, ?_, hg, congrArg (CoreType.i32 :: ·) hf,
      fun hlt => .payload case (SumKind.index_lt lt) flat (hc hlt) fill⟩
    rw [Abi.lowerNative, flat, runOn_bind_of_ok (runOn_liftM _ m), case]
    refine (runOn_bind_of_ok hrun _).trans ?_
    rw [fill, runOn_bind_of_ok (runOn_liftM _ m')]
    rfl

theorem FitsRow.passes {fields : List (String × Shape)} {ns : List Native} :
    FitsRow abi fields ns → ∀ (kinds : List CoreType) (m : Memory),
      Shape.flattenFields fields = .ok kinds →
        ∃ ws m' bs, runOn (abi.lowerRow fields ns) m = (.ok ws, m') ∧ Grows 0 0 bs m m' ∧
          ws.map Word.kind = kinds ∧ (m'.size < UInt32.size → CarriedRow abi m' fields ns ws bs)
  | .nil, kinds, m, hk => by
    cases hk
    exact ⟨[], m, [], rfl, Grows.refl m, rfl, fun _ => .nil⟩
  | .cons head tail, kinds, m, hk => by
    rw [Shape.flattenFields] at hk
    obtain ⟨first, hfirst, hk⟩ := Except.bind_eq_ok.1 hk
    obtain ⟨more, hmore, hk⟩ := Except.bind_eq_ok.1 hk
    cases hk
    obtain ⟨ws₁, m₁, bs₁, h₁, hg₁, hk₁, hc₁⟩ := head.passes first m hfirst
    obtain ⟨ws₂, m₂, bs₂, h₂, hg₂, hk₂, hc₂⟩ := tail.passes more m₁ hmore
    refine ⟨ws₁ ++ ws₂, m₂, bs₁ ++ bs₂, ?_, hg₁.trans hg₂, ?_, fun hlt => ?_⟩
    · rw [Abi.lowerRow, runOn_bind_of_ok h₁, runOn_bind_of_ok h₂]
      rfl
    · rw [List.map_append, hk₁, hk₂]
    · have hsize := hg₂.size_le
      have hsame := sameIn_of_grows hg₁ hg₂ fun h => absurd h (Nat.lt_irrefl 0)
      exact .cons ((hc₁ (Nat.lt_of_le_of_lt hsize hlt)).frame hsame hsize) (hc₂ hlt)

end

end ComponentAbi
