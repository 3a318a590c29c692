import ComponentAbi.Proofs.Native.Typing

/-!
# Normal forms

Reading a value as a native value forgets how its fields were ordered, which undeclared ones were
supplied, and in which order and how often its flags were named. What is left is the normal form of
the value (`Abi.normalize`), and that is what the native value stands for (`Abi.value`,
`Abi.value_nativeWithin`).

* `Abi.normalizeWithin_of_normal` : a value that is written as its type declares it is its own
  normal form.
-/

namespace ComponentAbi

/-- The value with another payload in place of its own. -/
def Value.withPayload (payload : Option Value) : Value → Value
  | variant label _ => variant label payload
  | option _ => option payload
  | ok _ => ok payload
  | err _ => err payload
  | v => v

namespace Abi

variable (abi : Abi)

/-! ### The normal form of a value -/

/-- The normal form of a value that is nested less than `depth` deep. Parts that do not fit their
type stay as they are. -/
def normalizeWithin : Nat → Shape → Value → Value
  | 0, _, v => v
  | depth + 1, shape, v =>
    match shape, v with
    | .leaf l, v => l.normalize v
    | .list element, .list items => .list (items.map (normalizeWithin depth (abi.shape element)))
    | .product (.record _) fields, .record given =>
      .record (fields.filterMap fun (label, field) =>
        (given.lookup label).map fun v => (label, normalizeWithin depth field v))
    | .product .tuple fields, .tuple items =>
      .tuple (fields.zipWith (fun (_, field) v => normalizeWithin depth field v) items)
    | .sum kind cases, v =>
      match kind.select cases v with
      | .ok (_, some (shape, payload)) =>
        v.withPayload (some (normalizeWithin depth shape payload))
      | _ => v
    | _, v => v

/-- The normal form of a value of a type: every record has the declared fields in their order, each
with the first value supplied for it, and every set of flags has its labels in the order of their
declaration, each of them once. -/
def normalize (id : TypeId) (v : Value) : Value :=
  abi.normalizeWithin (v.depth + 1) (abi.shape id) v

/-- The value is written as its type declares it: the fields of every record are the declared ones,
in their order and each the first of its name, and the flags of every set are declared ones, in
their order and each of them once. -/
def NormalWithin : Nat → Shape → Value → Prop
  | 0, _, _ => True
  | depth + 1, shape, v =>
    match shape, v with
    | .leaf (.flags _ labels), .flags set => set.Sublist labels.eraseDups
    | .list element, .list items => ∀ v ∈ items, NormalWithin depth (abi.shape element) v
    | .product (.record _) fields, .record given =>
      given.map (·.1) = fields.map (·.1) ∧
        (∀ entry ∈ given, given.lookup entry.1 = some entry.2) ∧
        ∀ entry ∈ fields.zip given, NormalWithin depth entry.1.2 entry.2.2
    | .product .tuple fields, .tuple items =>
      items.length = fields.length ∧
        ∀ entry ∈ fields.zip items, NormalWithin depth entry.1.2 entry.2
    | .sum kind cases, v => ∀ index inner payload,
      kind.select cases v = .ok (index, some (inner, payload)) → NormalWithin depth inner payload
    | _, _ => True

/-- The value is in the normal form of its type. -/
def Normal (id : TypeId) (v : Value) : Prop :=
  abi.NormalWithin (v.depth + 1) (abi.shape id) v

/-! ### From native values to values -/

mutual

/-- The value of a type that a native value stands for. -/
def value : Shape → Native → Value
  | .leaf l, .atom a => l.value a
  | .string, .text text => .string text
  | .list element, .list items => .list (valueItems (abi.shape element) items)
  | .product kind fields, .product parts =>
    kind.build (fields.map (·.1)) (valueRow fields parts)
  | .sum kind cases, .sum index payload =>
    match cases[index]? with
    | some (label, shape) => kind.build index label (valuePayload shape payload)
    | none => .tuple []
  | _, _ => .tuple []
termination_by structural _ n => n

/-- The values that the items of a list stand for. -/
def valueItems : Shape → List Native → List Value
  | _, [] => []
  | shape, n :: rest => value shape n :: valueItems shape rest
termination_by structural _ items => items

/-- The values that the parts of a product stand for. -/
def valueRow : List (String × Shape) → List Native → List Value
  | (_, shape) :: fields, n :: rest => value shape n :: valueRow fields rest
  | _, _ => []
termination_by structural _ parts => parts

/-- The value that the payload of a case stands for. -/
def valuePayload : Option Shape → Option Native → Option Value
  | some shape, some n => some (value shape n)
  | _, _ => none
termination_by structural _ payload => payload

end

end Abi

namespace SumKind

variable {kind : SumKind} {labels : List String} {v : Value} {index : Nat}
  {payload : Option Value}

/-- Putting a case together again gives the value it was, with the payload it has now. -/
theorem build_caseOf {label : String} {payload' : Option Value}
    (h : kind.caseOf labels v = .ok (index, payload)) (hl : labels[index]? = some label)
    (hp : payload'.isSome = payload.isSome) :
    kind.build index label payload' = v.withPayload payload' := by
  cases kind with
  | option =>
    cases v with
    | option p =>
      cases p with
      | none =>
        cases h
        cases payload' with
        | none => rfl
        | some _ => cases hp
      | some p => cases h; rfl
    | _ => cases h
  | result =>
    cases v with
    | ok p => cases h; rfl
    | err p => cases h; rfl
    | _ => cases h
  | variant name =>
    cases v with
    | variant given p =>
      rw [caseOf] at h
      split at h
      · rename_i i hi
        cases h
        obtain ⟨hlt, hg, -⟩ := List.idxOf?_eq_some_iff.1 hi
        rw [List.getElem?_eq_getElem hlt, hg] at hl
        cases hl
        rfl
      · cases h
    | _ => cases h

theorem withPayload_caseOf (h : kind.caseOf labels v = .ok (index, payload)) :
    v.withPayload payload = v := by
  cases kind with
  | option =>
    cases v with
    | option p => cases p <;> cases h <;> rfl
    | _ => cases h
  | result =>
    cases v with
    | ok p => cases h; rfl
    | err p => cases h; rfl
    | _ => cases h
  | variant name =>
    cases v with
    | variant given p =>
      rw [caseOf] at h
      split at h <;> cases h
      rfl
    | _ => cases h

end SumKind

namespace Abi

variable {abi : Abi} {d : Nat} {s : Shape} {v : Value} {n : Native}

/-! ### What a native value stands for -/

theorem valueItems_of_mapM {items : List Value} {ns : List Native}
    (hv : ∀ v n, abi.nativeWithin d s v = .ok n → abi.value s n = abi.normalizeWithin d s v)
    (h : items.mapM (abi.nativeWithin d s) = .ok ns) :
    abi.valueItems s ns = items.map (abi.normalizeWithin d s) := by
  induction items generalizing ns with
  | nil => cases h; rfl
  | cons v items ih =>
    obtain ⟨n, ns, hn, hns, rfl⟩ := Except.mapM_cons_eq_ok.1 h
    rw [valueItems, hv v n hn, ih hns, List.map_cons]

section Rows

variable {fields : List (String × Shape)} {ns : List Native}

theorem value_record {given : List (String × Value)}
    (hv : ∀ field ∈ fields, ∀ v n, abi.nativeWithin d field.2 v = .ok n →
      abi.value field.2 n = abi.normalizeWithin d field.2 v)
    (h : ((fields.zip ((fields.map (·.1)).map (recordField given))).mapM
      fun ((_, field), part) => do abi.nativeWithin d field (← part)) = .ok ns) :
    (fields.map (·.1)).zip (abi.valueRow fields ns) = fields.filterMap fun (label, field) =>
      (given.lookup label).map fun v => (label, abi.normalizeWithin d field v) := by
  induction fields generalizing ns with
  | nil => rfl
  | cons field fields ih =>
    obtain ⟨n, ns, hn, hns, rfl⟩ := Except.mapM_cons_eq_ok.1 h
    obtain ⟨label, field⟩ := field
    obtain ⟨v, hpart, hn⟩ := Except.bind_eq_ok.1 hn
    have hlookup : given.lookup label = some v := by
      cases hg : given.lookup label with
      | none => simp [recordField, hg] at hpart
      | some w => simpa [recordField, hg] using hpart
    have htail := ih (fun f hm => hv f (List.mem_cons_of_mem _ hm)) hns
    simp only [List.filterMap_cons, hlookup, Option.map_some]
    rw [List.map_cons, valueRow, List.zip_cons_cons, hv _ List.mem_cons_self v n hn, htail]

theorem value_tuple {items : List Value}
    (hv : ∀ field ∈ fields, ∀ v n, abi.nativeWithin d field.2 v = .ok n →
      abi.value field.2 n = abi.normalizeWithin d field.2 v)
    (h : ((fields.zip (items.map Except.ok)).mapM
      fun ((_, field), part) => do abi.nativeWithin d field (← part)) = .ok ns) :
    abi.valueRow fields ns =
      fields.zipWith (fun (_, field) v => abi.normalizeWithin d field v) items := by
  induction fields generalizing items ns with
  | nil => cases h; rfl
  | cons field fields ih =>
    cases items with
    | nil => cases h; rfl
    | cons v items =>
      obtain ⟨n, ns, hn, hns, rfl⟩ := Except.mapM_cons_eq_ok.1 h
      rw [valueRow, List.zipWith_cons_cons, hv field List.mem_cons_self v n hn,
        ih (fun f hm => hv f (List.mem_cons_of_mem _ hm)) hns]

end Rows

/-- The native value of a value stands for its normal form. -/
theorem value_nativeWithin (hc : abi.arena.CasesFit) (hs : s.Indexable)
    (h : abi.nativeWithin d s v = .ok n) : abi.value s n = abi.normalizeWithin d s v := by
  induction d generalizing s v n with
  | zero => cases h
  | succ d ih =>
    cases s with
    | leaf l =>
      obtain ⟨a, ha, rfl⟩ := Except.map_eq_ok.1 h
      exact Leaf.value_atom ha
    | string =>
      cases v with
      | string text => cases h; rfl
      | _ => cases h
    | list element =>
      cases v with
      | list items =>
        obtain ⟨layout, hl, h⟩ := Except.bind_eq_ok.1 h
        obtain ⟨ns, hns, h⟩ := Except.bind_eq_ok.1 h
        cases h
        exact congrArg Value.list <|
          valueItems_of_mapM (fun v n => ih (indexable_shape hc element)) hns
      | _ => cases h
    | product kind fields =>
      obtain ⟨parts, hp, h⟩ := Except.bind_eq_ok.1 h
      obtain ⟨ns, hns, h⟩ := Except.bind_eq_ok.1 h
      cases h
      have hi := Shape.fieldsIndexable_iff.1 hs
      have hv := fun field hm v n => @ih field.2 v n (hi field hm)
      cases kind with
      | record name =>
        cases v with
        | record given => cases hp; exact congrArg Value.record (value_record hv hns)
        | _ => cases hp
      | tuple =>
        cases v with
        | tuple items =>
          rw [ProductKind.parts] at hp
          split at hp <;> cases hp
          exact congrArg Value.tuple (value_tuple hv hns)
        | _ => cases hp
    | sum kind cases =>
      obtain ⟨⟨index, paired⟩, hsel, h⟩ := Except.bind_eq_ok.1 h
      obtain ⟨label, inner, payload, hcase, hof, hpair⟩ := SumKind.select_eq_ok hs.1 hsel
      have hlabel : (cases.map (·.1))[index]? = some label := by
        rw [List.getElem?_map, hcase]
        rfl
      rw [normalizeWithin, hsel]
      cases paired with
      | none =>
        cases h
        have hnone : payload = none := by
          cases inner <;> cases payload <;> first | rfl | cases hpair
        subst hnone
        rw [value, hcase]
        cases inner with
        | none => exact (SumKind.build_caseOf hof hlabel rfl).trans (SumKind.withPayload_caseOf hof)
        | some inner => cases hpair
      | some paired =>
        obtain ⟨shape', v'⟩ := paired
        obtain ⟨n, hn, h⟩ := Except.bind_eq_ok.1 h
        cases h
        have hsome : inner = some shape' ∧ payload = some v' := by
          cases inner <;> cases payload <;> cases hpair
          exact ⟨rfl, rfl⟩
        obtain ⟨rfl, rfl⟩ := hsome
        have hi := Shape.casesIndexable_iff.1 hs.2 label shape' (List.mem_of_getElem? hcase)
        simp only [value, hcase]
        rw [← ih hi hn]
        exact SumKind.build_caseOf hof hlabel rfl
    | unsupported kind title => cases h
    | unresolved cause => cases h

/-! ### Values in normal form -/

theorem nodup_eraseDups (labels : List String) : labels.eraseDups.Nodup := by
  induction labels using List.reverseRecOn with
  | nil => exact List.nodup_nil
  | append_singleton labels label ih =>
    rw [List.eraseDups_append]
    by_cases hm : label ∈ labels
    · simpa [List.removeAll, hm] using ih
    · rw [List.nodup_append]
      refine ⟨ih, ?_, ?_⟩
      · simp [List.removeAll, hm, List.eraseDups_cons]
      · intro a ha b hb hab
        subst hab
        have hlabel : a = label := by
          simpa [List.removeAll, hm, List.eraseDups_cons] using hb
        exact hm (hlabel ▸ List.mem_eraseDups.1 ha)

theorem eraseDups_of_nodup {labels : List String} (hn : labels.Nodup) :
    labels.eraseDups = labels := by
  induction labels with
  | nil => rfl
  | cons label labels ih =>
    obtain ⟨hnot, hn⟩ := List.nodup_cons.1 hn
    have hkeep : labels.filter (fun other => !other == label) = labels :=
      List.filter_eq_self.2 fun other hm => by
        have hne : other ≠ label := fun he => hnot (he ▸ hm)
        simpa using hne
    rw [List.eraseDups_cons, hkeep, ih hn]

theorem filter_of_sublist {labels set : List String} (hn : labels.Nodup)
    (h : set.Sublist labels) : labels.filter (· ∈ set) = set := by
  induction h with
  | slnil => rfl
  | @cons set labels label h ih =>
    obtain ⟨hnot, hn⟩ := List.nodup_cons.1 hn
    have hset : label ∉ set := fun hm => hnot (h.subset hm)
    rw [List.filter_cons_of_neg (by simpa using hset), ih hn]
  | @cons_cons set labels label h ih =>
    obtain ⟨hnot, hn⟩ := List.nodup_cons.1 hn
    rw [List.filter_cons_of_pos (by simp)]
    congr 1
    rw [← ih hn]
    refine List.filter_congr fun other hm => ?_
    have hne : other ≠ label := fun he => hnot (he ▸ hm)
    simp [ih hn, hne]

theorem filterMap_fields {fields : List (String × Shape)} {given rest : List (String × Value)}
    {f : Shape → Value → Value} (hl : rest.map (·.1) = fields.map (·.1))
    (hfirst : ∀ entry ∈ rest, given.lookup entry.1 = some entry.2)
    (hf : ∀ entry ∈ fields.zip rest, f entry.1.2 entry.2.2 = entry.2.2) :
    (fields.filterMap fun (label, field) =>
      (given.lookup label).map fun v => (label, f field v)) = rest := by
  induction fields generalizing rest with
  | nil =>
    cases rest with
    | nil => rfl
    | cons entry rest => cases hl
  | cons field fields ih =>
    cases rest with
    | nil => cases hl
    | cons entry rest =>
      obtain ⟨label, v⟩ := entry
      obtain ⟨label', field⟩ := field
      obtain ⟨rfl, htail⟩ := List.cons.inj hl
      obtain ⟨hlookup, hfirst⟩ := List.forall_mem_cons.1 hfirst
      obtain ⟨hv, hf⟩ := List.forall_mem_cons.1 hf
      simp only [List.filterMap_cons, hlookup, Option.map_some]
      rw [ih htail hfirst hf, hv]

theorem zipWith_fields {fields : List (String × Shape)} {items : List Value}
    {f : Shape → Value → Value} (hl : items.length = fields.length)
    (hf : ∀ entry ∈ fields.zip items, f entry.1.2 entry.2 = entry.2) :
    fields.zipWith (fun (_, field) v => f field v) items = items := by
  induction fields generalizing items with
  | nil =>
    cases items with
    | nil => rfl
    | cons v items => cases hl
  | cons field fields ih =>
    cases items with
    | nil => cases hl
    | cons v items =>
      obtain ⟨hv, hf⟩ := List.forall_mem_cons.1 hf
      rw [List.zipWith_cons_cons, ih (Nat.succ.inj hl) hf]
      exact congrArg (· :: items) hv

/-- A value in normal form is its own normal form. -/
theorem normalizeWithin_of_normal (h : abi.NormalWithin d s v) : abi.normalizeWithin d s v = v := by
  induction d generalizing s v with
  | zero => rfl
  | succ d ih =>
    cases s with
    | leaf l =>
      cases l with
      | flags name labels =>
        cases v with
        | flags set => exact congrArg Value.flags (filter_of_sublist (nodup_eraseDups labels) h)
        | _ => rfl
      | _ => rfl
    | list element =>
      cases v with
      | list items =>
        refine congrArg Value.list ?_
        rw [List.map_congr_left fun v hv => ih (h v hv), List.map_id']
      | _ => rfl
    | product kind fields =>
      cases kind with
      | record name =>
        cases v with
        | record given =>
          obtain ⟨hl, hfirst, hn⟩ := h
          exact congrArg Value.record
            (filterMap_fields hl hfirst fun entry hm => ih (hn entry hm))
        | _ => rfl
      | tuple =>
        cases v with
        | tuple items =>
          obtain ⟨hl, hn⟩ := h
          exact congrArg Value.tuple (zipWith_fields hl fun entry hm => ih (hn entry hm))
        | _ => rfl
    | sum kind cases =>
      rw [normalizeWithin]
      split
      · rename_i index inner payload hsel
        rw [ih (h index inner payload hsel)]
        obtain ⟨⟨i, given⟩, hof, hpair⟩ := Except.bind_eq_ok.1 hsel
        obtain ⟨paired, hpair, he⟩ := Except.bind_eq_ok.1 hpair
        cases he
        have hgiven : given = some payload := by
          generalize (cases[index]?).bind (·.2) = inner' at hpair
          cases given <;> cases inner' <;> cases hpair
          rfl
        subst hgiven
        exact SumKind.withPayload_caseOf hof
      · rfl
    | string => rfl
    | unsupported kind title => rfl
    | unresolved cause => rfl

end Abi

end ComponentAbi
