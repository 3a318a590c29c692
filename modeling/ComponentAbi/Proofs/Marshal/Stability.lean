import ComponentAbi.Proofs.Marshal.Faithful
import ComponentAbi.Proofs.Marshal.RoundTrip
import ComponentAbi.Proofs.Structure.Results

/-!
# Lifted values are stable

Lifting is lenient: any bits but zero are true, the bits that a type has no use for are ignored, and
so are the slots that a case does not use. What it answers is strict all the same, whatever the
words and the memory: the value has exactly the parts that its type declares, in their order. So
there is a native value that stands for it (`Abi.Faithful`), if the names in its type are different.
Hence it can be lowered anywhere, and comes back as it is.

* `Abi.exists_faithful_of_loadWithin`, `Abi.exists_faithful_of_readWithin` : what is answered, from
  any memory and from any words;
* `Abi.lifted_values_stable` : lowering it, and storing it.
-/

namespace ComponentAbi

namespace Abi

variable {abi : Abi} {m : Memory} {d : Nat} {s : Shape} {v : Value}

/-! ### What is lifted -/

theorem exists_faithful_of_loadItems {load : Shape → Nat → Except AbiError Value} {element : TypeId}
    {start length : Nat} {items : List Value}
    (hload : ∀ p v, load (abi.shape element) p = .ok v →
      ∃ n, abi.Faithful (abi.shape element) v n)
    (h : abi.loadItems m load element start length = .ok items) :
    ∃ n, abi.Faithful (.list element) (.list items) n := by
  obtain ⟨layout, hl, hstride, h⟩ := exists_layout_of_loadItems h
  refine exists_faithful_list hl hstride fun v hm => ?_
  obtain ⟨i, -, hv⟩ := Except.exists_of_mem_mapM h hm
  exact hload _ v hv

/-- What is loaded from memory comes back, whatever the memory holds. -/
theorem exists_faithful_of_loadWithin {p : Nat} (hs : s.Distinct abi)
    (h : abi.loadWithin m d s p = .ok v) : ∃ n, abi.Faithful s v n := by
  induction d generalizing s p v with
  | zero => cases h
  | succ d ih =>
    cases hs with
    | @leaf l names =>
      obtain ⟨bits, hbits, h⟩ := Except.bind_eq_ok.1 h
      refine exists_faithful_leaf names (fun cases he => ?_) h
      subst he
      exact Memory.readNat_lt hbits
    | string =>
      obtain ⟨_, -, h⟩ := Except.bind_eq_ok.1 h
      obtain ⟨text, -, h⟩ := Except.bind_eq_ok.1 h
      cases h
      exact ⟨_, faithful_string text⟩
    | list element_distinct =>
      obtain ⟨_, -, h⟩ := Except.bind_eq_ok.1 h
      obtain ⟨items, hitems, h⟩ := Except.bind_eq_ok.1 h
      cases h
      exact exists_faithful_of_loadItems
        (fun p v => ih (distinct_unfold element_distinct _ _)) hitems
    | @product kind fields apart parts =>
      obtain ⟨offsets, hoffsets, h⟩ := Except.bind_eq_ok.1 h
      obtain ⟨values, hvalues, h⟩ := Except.bind_eq_ok.1 h
      cases h
      have hl : fields.length = offsets.length := (Shape.length_fieldOffsets hoffsets).symm
      have hloaded : List.Forall₂ (fun field v => ∃ p, abi.loadWithin m d field.2 p = .ok v)
          fields values :=
        forall₂_of_zip hl ((Except.forall₂_of_mapM hvalues).imp fun entry v hv => ⟨_, hv⟩)
      obtain ⟨hlen, hloaded⟩ := List.forall₂_iff_zip.1 hloaded
      refine exists_faithful_product apart (List.forall₂_iff_zip.2 ⟨hlen, fun hm => ?_⟩)
      obtain ⟨_, hv⟩ := hloaded hm
      exact ih (parts _ (List.of_mem_zip hm).1) hv
    | @sum kind cases apart payloads =>
      obtain ⟨layout, hlayout, h⟩ := Except.bind_eq_ok.1 h
      obtain ⟨index, hindex, h⟩ := Except.bind_eq_ok.1 h
      obtain ⟨⟨label, payload⟩, hcase, h⟩ := Except.bind_eq_ok.1 h
      have hcase := getElem?_of_caseAt hcase
      have hlt := Memory.readNat_lt hindex
      rw [(Shape.payload_inside hlayout).1] at hlt
      cases payload with
      | none =>
        cases h
        exact ⟨_, faithful_bare apart hcase (SumKind.index_lt hlt)⟩
      | some inner =>
        obtain ⟨w, hw, h⟩ := Except.bind_eq_ok.1 h
        cases h
        obtain ⟨n, hn⟩ := ih (payloads label inner (List.mem_of_getElem? hcase)) hw
        exact ⟨_, hn.payload apart hcase (SumKind.index_lt hlt)⟩
    | unsupported | unresolved => cases h

theorem exists_faithful_of_readFields
    {read : Shape → WordReader → Except AbiError (Value × WordReader)}
    {fields : List (String × Shape)} {r r' : WordReader} {values : List Value}
    (hread : ∀ field ∈ fields, ∀ r v r', read field.2 r = .ok (v, r') →
      ∃ n, abi.Faithful field.2 v n)
    (h : readFields read fields r = .ok (values, r')) :
    List.Forall₂ (fun field v => ∃ n, abi.Faithful field.2 v n) fields values := by
  induction fields generalizing r values r' with
  | nil =>
    cases h
    exact .nil
  | cons field fields ih =>
    obtain ⟨hfirst, hrest⟩ := List.forall_mem_cons.1 hread
    obtain ⟨⟨v, r₁⟩, hv, h⟩ := Except.bind_eq_ok.1 h
    obtain ⟨⟨vs, r₂⟩, hvs, h⟩ := Except.bind_eq_ok.1 h
    cases h
    exact .cons (hfirst _ v r₁ hv) (ih hrest hvs)

/-- What is lifted from words comes back, whatever the words are and the memory holds. -/
theorem exists_faithful_of_readWithin {r r' : WordReader} (hs : s.Distinct abi)
    (h : abi.readWithin m d s r = .ok (v, r')) : ∃ n, abi.Faithful s v n := by
  induction d generalizing s r v r' with
  | zero => cases h
  | succ d ih =>
    cases hs with
    | @leaf l names =>
      obtain ⟨⟨bits, r₁⟩, hbits, h⟩ := Except.bind_eq_ok.1 h
      obtain ⟨v, hv, h⟩ := Except.bind_eq_ok.1 h
      cases h
      refine exists_faithful_leaf names (fun cases he => ?_) hv
      subst he
      exact WordReader.lt_of_next hbits
    | string =>
      obtain ⟨_, -, h⟩ := Except.bind_eq_ok.1 h
      obtain ⟨_, -, h⟩ := Except.bind_eq_ok.1 h
      obtain ⟨text, -, h⟩ := Except.bind_eq_ok.1 h
      cases h
      exact ⟨_, faithful_string text⟩
    | list element_distinct =>
      obtain ⟨_, -, h⟩ := Except.bind_eq_ok.1 h
      obtain ⟨_, -, h⟩ := Except.bind_eq_ok.1 h
      obtain ⟨items, hitems, h⟩ := Except.bind_eq_ok.1 h
      cases h
      exact exists_faithful_of_loadItems
        (fun _ _ => exists_faithful_of_loadWithin (distinct_unfold element_distinct _ _)) hitems
    | @product kind fields apart parts =>
      obtain ⟨⟨values, r₁⟩, hvalues, h⟩ := Except.bind_eq_ok.1 h
      cases h
      exact exists_faithful_product apart
        (exists_faithful_of_readFields (fun field hm _ _ _ => ih (parts field hm)) hvalues)
    | @sum kind cases apart payloads =>
      obtain ⟨slots, -, h⟩ := Except.bind_eq_ok.1 h
      obtain ⟨⟨index, r₁⟩, hindex, h⟩ := Except.bind_eq_ok.1 h
      obtain ⟨⟨words, r₂⟩, -, h⟩ := Except.bind_eq_ok.1 h
      obtain ⟨⟨label, payload⟩, hcase, h⟩ := Except.bind_eq_ok.1 h
      have hcase := getElem?_of_caseAt hcase
      have hlt : index < UInt32.size := WordReader.lt_of_next hindex
      cases payload with
      | none =>
        cases h
        exact ⟨_, faithful_bare apart hcase hlt⟩
      | some inner =>
        -- The payload has its own part of the words; nothing is asked of the others.
        obtain ⟨_, -, h⟩ := Except.bind_eq_ok.1 h
        obtain ⟨own, -, h⟩ := Except.bind_eq_ok.1 h
        obtain ⟨⟨w, rest⟩, hw, h⟩ := Except.bind_eq_ok.1 h
        obtain ⟨_, -, h⟩ := Except.bind_eq_ok.1 h
        cases h
        obtain ⟨n, hn⟩ := ih (payloads label inner (List.mem_of_getElem? hcase)) hw
        exact ⟨_, hn.payload apart hcase hlt⟩
    | unsupported | unresolved => cases h

/-- A value is loaded from memory only if its type has a layout. -/
theorem layout_of_loadWithin {p : Nat} (h : abi.loadWithin m d s p = .ok v) :
    ∃ l, s.layout = .ok l := by
  cases d with
  | zero => cases h
  | succ d =>
    cases s with
    | leaf l =>
      obtain ⟨bits, -, h⟩ := Except.bind_eq_ok.1 h
      have hcheck : l.check = .ok () := by
        cases l with
        | flags name labels => exact (Except.bind_eq_ok.1 h).choose_spec.1
        | _ => rfl
      exact ⟨_, by rw [Shape.layout, hcheck]; rfl⟩
    | string | list => exact ⟨_, rfl⟩
    | product kind fields =>
      obtain ⟨offsets, hoffsets, -⟩ := Except.bind_eq_ok.1 h
      obtain ⟨ls, hls, -⟩ := Except.map_eq_ok.1 hoffsets
      exact ⟨_, by rw [Shape.layout, hls]; rfl⟩
    | sum kind cases =>
      obtain ⟨layout, hlayout, -⟩ := Except.bind_eq_ok.1 h
      exact ⟨_, Shape.layout_sum hlayout⟩
    | unsupported | unresolved => cases h

/-! ### Lowering what was lifted -/

/-- The value was lifted from some words, or loaded from some address. -/
inductive Lifted (abi : Abi) (id : TypeId) (v : Value) : Prop where
  | flat {m : Memory} {ws : List Word} (lifted : abi.liftFlat m id ws = .ok v)
  | stored {m : Memory} {p : Nat} (loaded : abi.load m id p = .ok v)

variable {id : TypeId}

theorem Lifted.exists_faithful (h : abi.Lifted id v) (hd : abi.NamesDistinct id) :
    ∃ n, abi.Faithful (abi.shape id) v n := by
  have hshape : (abi.shape id).Distinct abi := distinct_unfold hd _ _
  cases h with
  | flat lifted =>
    obtain ⟨⟨w, r⟩, hread, h⟩ := Except.bind_eq_ok.1 lifted
    obtain ⟨_, -, h⟩ := Except.bind_eq_ok.1 h
    cases h
    exact exists_faithful_of_readWithin hshape hread
  | stored loaded => exact exists_faithful_of_loadWithin hshape loaded

/-- A type that has values that are lifted has a layout and words. -/
theorem Lifted.exists_layout (h : abi.Lifted id v) : ∃ l, (abi.shape id).layout = .ok l := by
  cases h with
  | flat lifted =>
    obtain ⟨_, hread, -⟩ := Except.bind_eq_ok.1 lifted
    exact (Shape.exists_layout_iff _).2 (flatten_of_readWithin hread)
  | stored loaded => exact layout_of_loadWithin loaded

open MemoryM

/-- A value that was lifted from any words and memory, or loaded from any, can be lowered into every
memory and stored wherever there is room for its type. Lifting the words and loading what is stored
gives the value again, if it has no lists of items without size and the memory has not outgrown its
addresses. -/
theorem lifted_values_stable (hd : abi.NamesDistinct id) (h : abi.Lifted id v) :
    (∀ m, ∃ ws m', runOn (abi.lowerFlat id v) m = (.ok ws, m') ∧
      (abi.ItemsSized id v → m'.size < UInt32.size → abi.liftFlat m' id ws = .ok v)) ∧
    ∃ l, abi.layout id = .ok l ∧ ∀ m p, m.Covers p (p + l.size) →
      ∃ m', runOn (abi.store id v p) m = (.ok (), m') ∧
        (abi.ItemsSized id v → m'.size < UInt32.size → abi.load m' id p = .ok v) := by
  obtain ⟨n, hn⟩ := h.exists_faithful hd
  have hnative : abi.native id v = .ok n := hn.native _ (Nat.lt_succ_self _)
  obtain ⟨l, hl⟩ := h.exists_layout
  obtain ⟨kinds, hk⟩ := (Shape.exists_layout_iff _).1 ⟨l, hl⟩
  refine ⟨fun m => ?_, l, hl, fun m p hp => ?_⟩
  · obtain ⟨ws, m', bs, hrun, hg, -, hcarried⟩ := hn.fits.passes kinds m hk
    refine ⟨ws, m', ?_, fun hs hm => ?_⟩
    · rw [lowerFlat, lowerWithin_native hnative, hrun]
    · rw [liftFlat_of_carried hn.fits (hcarried hm) ((hs n hnative).readable hn.strides)
        (length_le_of_grows hg), hn.value]
  · obtain ⟨m', bs, hrun, hg, hstored⟩ := hn.fits.lands l p m hl hp
    refine ⟨m', ?_, fun hs hm => ?_⟩
    · rw [store, storeWithin_native hnative, hrun]
    · rw [load_of_stored hn.fits (hstored hm) ((hs n hnative).readable hn.strides)
        (length_le_of_grows hg), hn.value]

/-- A record of a truth value, a set of flags and an optional number. -/
def switch : Abi where
  arena := ⟨#[.scalar .bool, .flags { name := "access" } ["read", "write", "run"], .scalar .u8,
    .option ⟨2⟩, .record { name := "switch" } [("on", ⟨0⟩), ("access", ⟨1⟩), ("level", ⟨3⟩)]]⟩

/-- What sloppy words stand for: a truth value of 7, bits that are no flags, and a payload in the
slot of a case that has none. -/
def sloppySwitch : Value :=
  .record [("on", .bool true), ("access", .flags ["read", "run"]), ("level", .option none)]

theorem lifted_values_stable_switch :
    switch.liftFlat {} ⟨4⟩ [.i32 7, .i32 245, .i32 0, .i32 99] = .ok sloppySwitch ∧
      runOn (switch.lowerFlat ⟨4⟩ sloppySwitch) {} = (.ok [.i32 1, .i32 5, .i32 0, .i32 0], {}) ∧
      switch.liftFlat {} ⟨4⟩ [.i32 1, .i32 5, .i32 0, .i32 0] = .ok sloppySwitch := by
  have hlift : switch.liftFlat {} ⟨4⟩ [.i32 7, .i32 245, .i32 0, .i32 99] = .ok sloppySwitch := rfl
  have hrun : runOn (switch.lowerFlat ⟨4⟩ sloppySwitch) {} =
    (.ok [.i32 1, .i32 5, .i32 0, .i32 0], {}) := rfl
  have hsized : switch.ItemsSized ⟨4⟩ sloppySwitch := by
    intro n hn
    cases hn
    exact ⟨trivial, trivial, trivial, trivial⟩
  have hdistinct : switch.NamesDistinct ⟨4⟩ := namesDistinct_of_nodes (by decide) _
  obtain ⟨ws, m', hrun', hback⟩ := (lifted_values_stable hdistinct (.flat hlift)).1 {}
  rw [hrun] at hrun'
  cases hrun'
  exact ⟨hlift, hrun, hback hsized (by decide)⟩

end Abi

end ComponentAbi
