import ComponentAbi.Proofs.Marshal.Rows

/-!
# Handles of values that were lowered

The owned handles of a value are looked for along its type. Where a value can be lowered, every type
that the search comes across is known, so the search succeeds. It also succeeds on the normal form
of the value, which has no parts that the value does not have (`Abi.Trimmed`).

* `Abi.native_of_list`, `Abi.native_of_tuple`, `Abi.native_of_record`, `Abi.native_of_sum` : what
  the native values of compound values are made of;
* `Abi.ownedHandlesOfAll_of_native`, `Abi.ownedHandlesOfAll_normalizeAll` : the search succeeds.
-/

namespace ComponentAbi

/-! ### Depth of parts -/

namespace Value

theorem depth_le_depths {items : List Value} {v : Value} (h : v ∈ items) :
    v.depth ≤ depths items := by
  induction items with
  | nil => cases h
  | cons w items ih =>
    rcases List.mem_cons.1 h with rfl | h
    · exact Nat.le_max_left _ _
    · exact Nat.le_trans (ih h) (Nat.le_max_right _ _)

theorem depth_le_fieldDepths {fields : List (String × Value)} {label : String} {v : Value}
    (h : fields.lookup label = some v) : v.depth ≤ fieldDepths fields := by
  induction fields with
  | nil => cases h
  | cons field fields ih =>
    obtain ⟨name, w⟩ := field
    by_cases hl : label = name
    · subst hl
      simp at h
      subst h
      exact Nat.le_max_left _ _
    · have hne : (label == name) = false := by simpa using hl
      rw [List.lookup_cons, hne] at h
      exact Nat.le_trans (ih h) (Nat.le_max_right _ _)

/-- The value is in a case, with the payload. -/
inductive InCase : Value → Option Value → Prop where
  | option (payload : Option Value) : InCase (.option payload) payload
  | ok (payload : Option Value) : InCase (.ok payload) payload
  | err (payload : Option Value) : InCase (.err payload) payload
  | variant (label : String) (payload : Option Value) : InCase (.variant label payload) payload

theorem InCase.depth_withPayload {v : Value} {payload : Option Value} (h : InCase v payload)
    (payload' : Option Value) : (v.withPayload payload').depth = payloadDepth payload' + 1 := by
  cases h <;> rfl

theorem InCase.withPayload {v : Value} {payload : Option Value} (h : InCase v payload) :
    v.withPayload payload = v := by
  cases h <;> rfl

end Value

theorem SumKind.inCase {kind : SumKind} {labels : List String} {v : Value} {index : Nat}
    {payload : Option Value} (h : kind.caseOf labels v = .ok (index, payload)) :
    v.InCase payload := by
  cases kind with
  | option =>
    cases v with
    | option payload =>
      cases payload <;> cases h <;> exact .option _
    | _ => cases h
  | result =>
    cases v with
    | ok payload => cases h; exact .ok _
    | err payload => cases h; exact .err _
    | _ => cases h
  | variant name =>
    cases v with
    | variant label payload =>
      rw [caseOf] at h
      split at h <;> cases h
      exact .variant label _
    | _ => cases h

theorem pairPayload_eq_some {shape : Option Shape} {payload : Option Value} {s : Shape} {v : Value}
    (h : pairPayload shape payload = .ok (some (s, v))) : shape = some s ∧ payload = some v := by
  cases shape <;> cases payload <;> cases h
  exact ⟨rfl, rfl⟩

namespace Abi

variable {abi : Abi}

/-! ### Trimmed values -/

/-- The value is what normalizing another one as a value of some type leaves of it. -/
def Trimmed (abi : Abi) (w v : Value) : Prop :=
  ∃ d s, w = abi.normalizeWithin d s v

/-- Every value is what normalizing it to no depth leaves of it. -/
theorem Trimmed.refl (abi : Abi) (v : Value) : abi.Trimmed v v :=
  ⟨0, .string, rfl⟩

variable {w v : Value} {items : List Value} {given : List (String × Value)}

theorem Trimmed.list (h : abi.Trimmed w (.list items)) :
    ∃ items', w = .list items' ∧ ∀ w ∈ items', ∃ v ∈ items, abi.Trimmed w v := by
  obtain ⟨d, s, rfl⟩ := h
  have hself : ∀ w ∈ items, ∃ v ∈ items, abi.Trimmed w v := fun w hw => ⟨w, hw, .refl abi w⟩
  cases d with
  | zero => exact ⟨items, rfl, hself⟩
  | succ d =>
    cases s with
    | list element =>
      refine ⟨_, rfl, fun w hw => ?_⟩
      obtain ⟨v, hv, rfl⟩ := List.mem_map.1 hw
      exact ⟨v, hv, d, abi.shape element, rfl⟩
    | leaf l => cases l <;> exact ⟨items, rfl, hself⟩
    | product kind fields => cases kind <;> exact ⟨items, rfl, hself⟩
    | sum kind cases => cases kind <;> exact ⟨items, rfl, hself⟩
    | _ => exact ⟨items, rfl, hself⟩

theorem Trimmed.tuple (h : abi.Trimmed w (.tuple items)) :
    ∃ items', w = .tuple items' ∧
      ∀ (i : Nat) w, items'[i]? = some w → ∃ v, items[i]? = some v ∧ abi.Trimmed w v := by
  obtain ⟨d, s, rfl⟩ := h
  have hself : ∀ (i : Nat) w, items[i]? = some w → ∃ v, items[i]? = some v ∧ abi.Trimmed w v :=
    fun i w hw => ⟨w, hw, .refl abi w⟩
  cases d with
  | zero => exact ⟨items, rfl, hself⟩
  | succ d =>
    cases s with
    | product kind fields =>
      cases kind with
      | record name => exact ⟨items, rfl, hself⟩
      | tuple =>
        refine ⟨_, rfl, fun i w hw => ?_⟩
        obtain ⟨field, v, -, hv, rfl⟩ := List.getElem?_zipWith_eq_some.1 hw
        exact ⟨v, hv, d, field.2, rfl⟩
    | leaf l => cases l <;> exact ⟨items, rfl, hself⟩
    | sum kind cases => cases kind <;> exact ⟨items, rfl, hself⟩
    | _ => exact ⟨items, rfl, hself⟩

/-- A field of a normalized record is there in the record. -/
theorem lookup_filterMap {fields : List (String × Shape)} {d : Nat} {label : String}
    (h : (fields.filterMap fun (label, field) =>
      (given.lookup label).map fun v => (label, abi.normalizeWithin d field v)).lookup label =
        some w) :
    ∃ v, given.lookup label = some v ∧ abi.Trimmed w v := by
  induction fields with
  | nil => cases h
  | cons field fields ih =>
    obtain ⟨name, field⟩ := field
    cases hg : given.lookup name with
    | none =>
      simp only [List.filterMap_cons, hg, Option.map_none] at h
      exact ih h
    | some v =>
      simp only [List.filterMap_cons, hg, Option.map_some] at h
      by_cases hl : label = name
      · subst hl
        simp at h
        exact ⟨v, hg, d, field, h.symm⟩
      · have hne : (label == name) = false := by simpa using hl
        rw [List.lookup_cons, hne] at h
        exact ih h

theorem Trimmed.record (h : abi.Trimmed w (.record given)) :
    ∃ given', w = .record given' ∧
      ∀ label w, given'.lookup label = some w →
        ∃ v, given.lookup label = some v ∧ abi.Trimmed w v := by
  obtain ⟨d, s, rfl⟩ := h
  have hself : ∀ label w, given.lookup label = some w →
      ∃ v, given.lookup label = some v ∧ abi.Trimmed w v :=
    fun label w hw => ⟨w, hw, .refl abi w⟩
  cases d with
  | zero => exact ⟨given, rfl, hself⟩
  | succ d =>
    cases s with
    | product kind fields =>
      cases kind with
      | record name => exact ⟨_, rfl, fun label w hw => lookup_filterMap hw⟩
      | tuple => exact ⟨given, rfl, hself⟩
    | leaf l => cases l <;> exact ⟨given, rfl, hself⟩
    | sum kind cases => cases kind <;> exact ⟨given, rfl, hself⟩
    | _ => exact ⟨given, rfl, hself⟩

/-- A case stays the same case, and its payload is trimmed. -/
theorem Trimmed.inCase {payload : Option Value} (h : abi.Trimmed w v) (hv : v.InCase payload) :
    ∃ payload', w = v.withPayload payload' ∧
      ∀ w', payload' = some w' → ∃ v', payload = some v' ∧ abi.Trimmed w' v' := by
  obtain ⟨d, s, rfl⟩ := h
  have hself : ∃ payload', v = v.withPayload payload' ∧
      ∀ w', payload' = some w' → ∃ v', payload = some v' ∧ abi.Trimmed w' v' :=
    ⟨payload, hv.withPayload.symm, fun w' hw' => ⟨w', hw', .refl abi w'⟩⟩
  cases d with
  | zero => exact hself
  | succ d =>
    cases s with
    | sum kind cases' =>
      rw [normalizeWithin]
      split
      · rename_i index shape v' hsel
        obtain ⟨⟨i, p⟩, hc, hsel⟩ := Except.bind_eq_ok.1 hsel
        obtain ⟨paired, hp, hsel⟩ := Except.bind_eq_ok.1 hsel
        cases hsel
        obtain ⟨-, rfl⟩ := pairPayload_eq_some hp
        have hpayload : payload = some v' := by
          cases hv <;> cases SumKind.inCase hc <;> rfl
        exact ⟨_, rfl, fun w' hw' => ⟨v', hpayload, d, shape, (Option.some.inj hw').symm⟩⟩
      · exact hself
    | leaf l => cases hv <;> cases l <;> exact hself
    | product kind fields => cases hv <;> cases kind <;> exact hself
    | _ => cases hv <;> exact hself

/-! ### What native values are made of -/

/-- A type with native values can be looked up, and its shape is that of the node found. -/
theorem unfold_of_native {k d : Nat} {path : List TypeId} {id : TypeId} {n : Native}
    (h : abi.nativeWithin d (abi.unfold k path id) v = .ok n) :
    ∃ k' path' resolved node, abi.lookup id = .ok (resolved, node) ∧
      abi.unfold k path id = Shape.ofNode (abi.unfold k' path') node := by
  cases d with
  | zero => cases h
  | succ d =>
    cases k with
    | zero => cases h
    | succ k =>
      rw [unfold] at h ⊢
      cases hl : abi.lookup id with
      | error cause => rw [hl] at h; cases h
      | ok found =>
        obtain ⟨resolved, node⟩ := found
        by_cases hm : resolved ∈ path
        · simp only [hl, if_pos hm] at h
          cases h
        · exact ⟨k, resolved :: path, resolved, node, rfl, if_neg hm⟩

section Parts

variable {d : Nat} {n : Native} {fields : List (String × Shape)}

theorem native_of_list {element : TypeId} (h : abi.nativeWithin (d + 1) (.list element) v = .ok n) :
    ∃ items ns, v = .list items ∧ n = .list ns ∧
      items.mapM (abi.nativeWithin d (abi.shape element)) = .ok ns := by
  cases v with
  | list items =>
    obtain ⟨layout, -, h⟩ := Except.bind_eq_ok.1 h
    obtain ⟨ns, hns, h⟩ := Except.bind_eq_ok.1 h
    cases h
    exact ⟨items, ns, rfl, rfl, hns⟩
  | _ => cases h

theorem native_of_tuple (h : abi.nativeWithin (d + 1) (.product .tuple fields) v = .ok n) :
    ∃ items ns, v = .tuple items ∧ n = .product ns ∧ fields.length = items.length ∧
      ((fields.zip items).mapM fun (field, v) => abi.nativeWithin d field.2 v) = .ok ns := by
  obtain ⟨parts, hp, h⟩ := Except.bind_eq_ok.1 h
  obtain ⟨ns, hns, h⟩ := Except.bind_eq_ok.1 h
  cases h
  cases v with
  | tuple items =>
    rw [ProductKind.parts, List.length_map] at hp
    split at hp <;> cases hp
    rename_i hl
    rw [List.zip_map_right, List.mapM_map] at hns
    exact ⟨items, ns, rfl, rfl, hl, hns⟩
  | _ => cases hp

theorem recordField_eq_ok {label : String} :
    recordField given label = .ok v ↔ given.lookup label = some v := by
  rw [recordField]
  cases given.lookup label <;> simp

theorem native_of_record {name : TypeName}
    (h : abi.nativeWithin (d + 1) (.product (.record name) fields) v = .ok n) :
    ∃ given ns, v = .record given ∧ n = .product ns ∧
      (fields.mapM fun field => do abi.nativeWithin d field.2 (← recordField given field.1)) =
        .ok ns := by
  obtain ⟨parts, hp, h⟩ := Except.bind_eq_ok.1 h
  obtain ⟨ns, hns, h⟩ := Except.bind_eq_ok.1 h
  cases h
  cases v with
  | record given =>
    cases hp
    have hzip : fields.zip (fields.map (recordField given ∘ (·.1))) =
        fields.map fun field => (field, recordField given field.1) := by
      simpa using List.zip_map' (f := id) (g := recordField given ∘ (·.1)) (l := fields)
    rw [List.map_map, hzip, List.mapM_map] at hns
    exact ⟨given, ns, rfl, rfl, hns⟩
  | _ => cases hp

/-- The native value is the case that the value is in. -/
inductive NativeCase (abi : Abi) (d : Nat) (kind : SumKind)
    (cases : List (String × Option Shape)) (v : Value) : Native → Prop where
  | bare {index : Nat} (case_of : kind.caseOf (cases.map (·.1)) v = .ok (index, none)) :
    NativeCase abi d kind cases v (.sum index none)
  | payload {index : Nat} {label : String} {shape : Shape} {v' : Value} {n : Native}
    (case_of : kind.caseOf (cases.map (·.1)) v = .ok (index, some v'))
    (case : cases[index]? = some (label, some shape))
    (native : abi.nativeWithin d shape v' = .ok n) :
    NativeCase abi d kind cases v (.sum index (some n))

theorem native_of_sum {kind : SumKind} {cases : List (String × Option Shape)}
    (h : abi.nativeWithin (d + 1) (.sum kind cases) v = .ok n) :
    NativeCase abi d kind cases v n := by
  obtain ⟨⟨index, paired⟩, hsel, h⟩ := Except.bind_eq_ok.1 h
  obtain ⟨⟨i, payload⟩, hc, hsel⟩ := Except.bind_eq_ok.1 hsel
  obtain ⟨paired', hp, hsel⟩ := Except.bind_eq_ok.1 hsel
  cases hsel
  cases hcase : (cases[index]?).bind (·.2) with
  | none =>
    rw [hcase] at hp
    cases payload <;> cases hp
    cases h
    exact .bare hc
  | some shape =>
    rw [hcase] at hp
    cases payload <;> cases hp
    obtain ⟨n', hn, h⟩ := Except.bind_eq_ok.1 h
    cases h
    obtain ⟨⟨label, _⟩, hcase, rfl⟩ := Option.bind_eq_some_iff.1 hcase
    exact .payload hc hcase hn

end Parts

/-! ### Values in cases -/

/-- The first entry of a label is at the first index of the label. -/
theorem lookup_of_idxOf? {α : Type} {entries : List (String × α)} {label : String} {i : Nat}
    (h : (entries.map (·.1)).idxOf? label = some i) :
    entries.lookup label = (entries[i]?).map (·.2) := by
  induction entries generalizing i with
  | nil => cases h
  | cons entry entries ih =>
    obtain ⟨name, a⟩ := entry
    rw [List.map_cons, List.idxOf?_cons] at h
    by_cases hl : label = name
    · subst hl
      simp at h
      subst h
      simp
    · have hne : (label == name) = false := by simpa using hl
      have hne' : (name == label) = false := by simpa using Ne.symm hl
      cases hj : (entries.map (·.1)).idxOf? label with
      | none => simp [hne', hj] at h
      | some j =>
        simp [hne', hj] at h
        subst h
        rw [List.lookup_cons, hne, ih hj]
        rfl

end Abi

/-- The kind and the cases of a type whose values are in cases. -/
def TypeNode.sum? : TypeNode → Option (SumKind × List (String × Option TypeId))
  | option payload => some (.option, [("none", none), ("some", some payload)])
  | result ok err => some (.result, [("ok", ok), ("error", err)])
  | variant name cases => some (.variant name, cases)
  | _ => none

namespace Abi

variable {abi : Abi} {w v : Value} {node : TypeNode} {kind : SumKind}
  {cases : List (String × Option TypeId)}

theorem ofNode_sum (hk : node.sum? = some (kind, cases)) (inner : TypeId → Shape) :
    Shape.ofNode inner node = .sum kind (cases.map fun case => (case.1, case.2.map inner)) := by
  cases node <;> cases hk <;> rfl

theorem part_of_case {inner : TypeId → Shape} {index : Nat} {label : String} {shape : Shape}
    (h : (cases.map fun case => (case.1, case.2.map inner))[index]? = some (label, some shape)) :
    ∃ part, cases[index]? = some (label, some part) ∧ inner part = shape := by
  rw [List.getElem?_map, Option.map_eq_some_iff] at h
  obtain ⟨⟨label', c⟩, hcase, he⟩ := h
  cases c <;> cases he
  exact ⟨_, hcase, rfl⟩

/-- With another payload, the value is in the same case if it has a payload in both. -/
theorem caseOf_withPayload {labels : List String} {index : Nat} {payload : Option Value}
    (h : kind.caseOf labels v = .ok (index, payload)) (payload' : Option Value) :
    ∃ index', kind.caseOf labels (v.withPayload payload') = .ok (index', payload') ∧
      (payload'.isSome = payload.isSome → index' = index) := by
  cases SumKind.inCase h with
  | option =>
    cases kind with
    | option =>
      cases payload <;> cases h
      · cases payload' <;> exact ⟨_, rfl, by simp⟩
      · cases payload' <;> exact ⟨_, rfl, by simp⟩
    | _ => cases h
  | ok | err =>
    cases kind <;> cases h
    exact ⟨_, rfl, fun _ => rfl⟩
  | variant label =>
    cases kind with
    | variant name =>
      rw [SumKind.caseOf] at h
      rw [Value.withPayload, SumKind.caseOf]
      cases hi : labels.idxOf? label with
      | none =>
        rw [hi] at h
        cases h
      | some i =>
        rw [hi] at h
        cases h
        exact ⟨_, rfl, fun _ => rfl⟩
    | _ => cases h

/-- The owned handles of a payload, if there is one and the case has a type for it. -/
def ownedHandlesOfPayload (abi : Abi) (fuel : Nat) :
    Option TypeId → Option Value → Except AbiError (List UInt32)
  | some part, some v => abi.ownedHandlesWithin fuel part v
  | _, _ => .ok []

theorem ownedHandlesOfPayload_none (fuel : Nat) (part : Option TypeId) :
    abi.ownedHandlesOfPayload fuel part none = .ok [] := by
  cases part <;> rfl

/-- A value in a case is searched in its payload. -/
theorem ownedHandlesWithin_sum {id resolved : TypeId} {index : Nat} {payload : Option Value}
    (hl : abi.lookup id = .ok (resolved, node)) (hk : node.sum? = some (kind, cases))
    (hw : kind.caseOf (cases.map (·.1)) w = .ok (index, payload)) (fuel : Nat) :
    abi.ownedHandlesWithin (fuel + 1) id w =
      abi.ownedHandlesOfPayload fuel ((cases[index]?).bind (·.2)) payload := by
  rw [ownedHandlesWithin, hl]
  cases node with
  | option part =>
    cases hk
    cases w with
    | option p => cases p <;> cases hw <;> rfl
    | _ => cases hw
  | result ok err =>
    cases hk
    cases w with
    | ok p =>
      cases hw
      cases ok <;> cases payload <;> rfl
    | err p =>
      cases hw
      cases err <;> cases payload <;> rfl
    | _ => cases hw
  | variant name cases =>
    cases hk
    cases w with
    | variant label p =>
      rw [SumKind.caseOf] at hw
      cases hi : (cases.map (·.1)).idxOf? label <;> rw [hi] at hw <;> cases hw
      have hlookup : (cases.lookup label).join = (cases[index]?).bind (·.2) := by
        rw [lookup_of_idxOf? hi]
        cases cases[index]? <;> rfl
      simp only [bind, Except.bind, hlookup]
      rfl
    | _ => cases hw
  | _ => cases hk

/-! ### The search succeeds -/

/-- The handles of all parts are found if those of each part are. -/
theorem exists_flatten {α : Type} {f : α → Except AbiError (List UInt32)} {xs : List α}
    (h : ∀ x ∈ xs, ∃ hs, f x = .ok hs) :
    ∃ hs, (do return (← xs.mapM f).flatten : Except AbiError (List UInt32)) = .ok hs := by
  obtain ⟨hss, hm⟩ := Except.mapM_eq_ok_of_forall h
  exact ⟨hss.flatten, by rw [hm]; rfl⟩

theorem ownedHandlesWithin_of_native {fuel k d : Nat} {path : List TypeId} {id : TypeId}
    {n : Native} (h : abi.nativeWithin d (abi.unfold k path id) v = .ok n) (hw : abi.Trimmed w v)
    (hf : w.depth < fuel) : ∃ hs, abi.ownedHandlesWithin fuel id w = .ok hs := by
  induction fuel generalizing k d path id v w n with
  | zero => cases hf
  | succ fuel ih =>
    obtain ⟨k', path', resolved, node, hl, hu⟩ := unfold_of_native h
    rw [hu] at h
    cases d with
    | zero => cases h
    | succ d =>
      cases hk : node.sum? with
      | some sum =>
        obtain ⟨kind, cases'⟩ := sum
        rw [ofNode_sum hk] at h
        cases native_of_sum h with
        | bare case_of =>
          rw [List.map_map] at case_of
          obtain ⟨p, rfl, hp⟩ := hw.inCase (SumKind.inCase case_of)
          obtain ⟨index', hw', -⟩ := caseOf_withPayload case_of p
          rw [ownedHandlesWithin_sum hl hk hw']
          cases p with
          | none => exact ⟨_, ownedHandlesOfPayload_none _ _⟩
          | some w' =>
            obtain ⟨v', hv', -⟩ := hp w' rfl
            cases hv'
        | payload case_of case native =>
          rw [List.map_map] at case_of
          obtain ⟨p, rfl, hp⟩ := hw.inCase (SumKind.inCase case_of)
          obtain ⟨index', hw', hsame⟩ := caseOf_withPayload case_of p
          rw [ownedHandlesWithin_sum hl hk hw']
          cases p with
          | none => exact ⟨_, ownedHandlesOfPayload_none _ _⟩
          | some w' =>
            obtain ⟨v', hv', htrim⟩ := hp w' rfl
            cases hv'
            obtain ⟨part, hcase, rfl⟩ := part_of_case case
            rw [hsame rfl, hcase]
            rw [(SumKind.inCase case_of).depth_withPayload] at hf
            exact ih native htrim (Nat.lt_of_succ_lt_succ hf)
      | none =>
        rw [ownedHandlesWithin, hl]
        cases node with
        | list element =>
          obtain ⟨items, ns, rfl, rfl, hns⟩ := native_of_list h
          obtain ⟨items', rfl, hitems⟩ := hw.list
          refine exists_flatten fun w' hw' => ?_
          obtain ⟨v', hv', htrim⟩ := hitems w' hw'
          obtain ⟨n', hn'⟩ := Except.eq_ok_of_mem_mapM hns hv'
          have hdepth := Value.depth_le_depths hw'
          exact ih hn' htrim (Nat.lt_of_le_of_lt hdepth (Nat.lt_of_succ_lt_succ hf))
        | tuple elements =>
          obtain ⟨items, ns, rfl, rfl, hlen, hns⟩ := native_of_tuple h
          rw [List.zip_map_left, List.mapM_map] at hns
          obtain ⟨items', rfl, hitems⟩ := hw.tuple
          refine exists_flatten fun entry hentry => ?_
          obtain ⟨i, hi⟩ := List.mem_iff_getElem?.1 hentry
          obtain ⟨hid, hw'⟩ := List.getElem?_zip_eq_some.1 hi
          obtain ⟨v', hv', htrim⟩ := hitems i _ hw'
          have hmem : (entry.1, v') ∈ elements.zip items :=
            List.mem_of_getElem? (List.getElem?_zip_eq_some.2 ⟨hid, hv'⟩)
          obtain ⟨n', hn'⟩ := Except.eq_ok_of_mem_mapM hns hmem
          have hdepth := Value.depth_le_depths (List.mem_of_getElem? hw')
          exact ih hn' htrim (Nat.lt_of_le_of_lt hdepth (Nat.lt_of_succ_lt_succ hf))
        | record name fields =>
          obtain ⟨given, ns, rfl, rfl, hns⟩ := native_of_record h
          rw [List.mapM_map] at hns
          obtain ⟨given', rfl, hgiven⟩ := hw.record
          refine exists_flatten fun field hfield => ?_
          cases hg : given'.lookup field.1 with
          | none => exact ⟨[], by simp only [hg]⟩
          | some w' =>
            obtain ⟨v', hv', htrim⟩ := hgiven _ _ hg
            obtain ⟨n', hn'⟩ := Except.eq_ok_of_mem_mapM hns hfield
            obtain ⟨v'', hv'', hn'⟩ := Except.bind_eq_ok.1 hn'
            cases hv'.symm.trans (recordField_eq_ok.1 hv'')
            have hdepth := Value.depth_le_fieldDepths hg
            simp only [hg]
            exact ih hn' htrim (Nat.lt_of_le_of_lt hdepth (Nat.lt_of_succ_lt_succ hf))
        | option | result | variant => cases hk
        | scalar | string | enum | flags | resource | borrow | function | interface | world | stream
        | future | reference => cases w <;> exact ⟨_, rfl⟩

theorem ownedHandles_of_native {id : TypeId} {n : Native} (h : abi.native id v = .ok n)
    (hw : abi.Trimmed w v) : ∃ hs, abi.ownedHandles id w = .ok hs :=
  ownedHandlesWithin_of_native h hw (Nat.lt_succ_self _)

/-- The handles of values that can be read are found. -/
theorem ownedHandlesOfAll_of_native {ids : List TypeId} {values : List Value} {ns : List Native}
    (h : abi.nativeAll ids values = .ok ns) : ∃ hs, abi.ownedHandlesOfAll ids values = .ok hs :=
  exists_flatten fun _ hm =>
    have ⟨_, hn⟩ := Except.eq_ok_of_mem_mapM h hm
    ownedHandles_of_native hn (.refl abi _)

/-- So are those of their normal forms. -/
theorem ownedHandlesOfAll_normalizeAll {ids : List TypeId} {values : List Value} {ns : List Native}
    (h : abi.nativeAll ids values = .ok ns) :
    ∃ hs, abi.ownedHandlesOfAll ids (abi.normalizeAll ids values) = .ok hs := by
  refine exists_flatten fun entry hm => ?_
  obtain ⟨i, hi⟩ := List.mem_iff_getElem?.1 hm
  obtain ⟨hid, hw⟩ := List.getElem?_zip_eq_some.1 hi
  rw [normalizeAll, List.getElem?_map, Option.map_eq_some_iff] at hw
  obtain ⟨⟨id, v⟩, hz, he⟩ := hw
  obtain ⟨n, hn⟩ := Except.eq_ok_of_mem_mapM h (List.mem_of_getElem? hz)
  cases hid.symm.trans (List.getElem?_zip_eq_some.1 hz).1
  exact ownedHandles_of_native hn ⟨_, _, he.symm⟩

end Abi

end ComponentAbi
