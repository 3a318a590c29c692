import ComponentAbi.Proofs.Arena
import ComponentAbi.Proofs.Shape.Search
import ComponentAbi.Proofs.Shape.WellFormed

/-!
# Words and bytes

A type has core words if and only if it has a layout: flattening and laying out go through a shape
in the same order and stop at the same error (`Shape.layout_eq_error_iff`). A type without words
takes no bytes, and the other way round (`Shape.flatten_eq_nil_iff`).

Such a type can also be searched for memory that its values own. The search does not look into
lists, since finding one is enough, so it only sees types that were unfolded; and every step takes a
type off the pending ones, while the components of a node are added at its first visit only
(`Abi.exists_searchWithin`).

Together they are `Abi.flatten_layout_agree`.
-/

namespace ComponentAbi

namespace Layout

variable {ls : List Layout} {lo : Nat}

/-- Rounding up does not move the start of an area, and nothing else gets there. -/
theorem alignUp_eq_zero {align : Nat} (h : Aligning align) : alignUp lo align = 0 ↔ lo = 0 := by
  constructor
  · intro hz
    have := Memory.le_alignUp lo h.pos
    omega
  · rintro rfl
    have hlt := h.alignUp_lt 0
    rw [Nat.zero_add] at hlt
    exact Nat.eq_zero_of_dvd_of_lt (h.dvd_alignUp 0) hlt

theorem endFrom_eq_zero (h : ∀ l ∈ ls, Aligning l.align) :
    endFrom lo ls = 0 ↔ lo = 0 ∧ ∀ l ∈ ls, l.size = 0 := by
  induction ls generalizing lo with
  | nil => simp [endFrom]
  | cons l ls ih =>
    obtain ⟨hl, hls⟩ := List.forall_mem_cons.1 h
    rw [endFrom, ih hls, Nat.add_eq_zero_iff, alignUp_eq_zero hl, List.forall_mem_cons, and_assoc]

/-- Fields in a row take no bytes if none of them does. -/
theorem size_sequence_eq_zero (h : ∀ l ∈ ls, Aligning l.align) :
    (sequence ls).size = 0 ↔ ∀ l ∈ ls, l.size = 0 := by
  rw [sequence, alignUp_eq_zero (aligning_maxAlign aligning_one h), endFrom_eq_zero h]
  exact and_iff_right rfl

end Layout

namespace Shape

variable {e : AbiError}

/-! ### The same errors -/

mutual

/-- A type that has no layout has no core words either, for the same reason. -/
theorem layout_eq_error_iff : (s : Shape) → (s.layout = .error e ↔ s.flatten = .error e)
  | leaf l => by
    rw [layout, flatten, Except.map_eq_error, Except.map_eq_error]
  | string | list _ => ⟨nofun, nofun⟩
  | product kind fields => by
    rw [layout, flatten, Except.map_eq_error, fieldLayouts_eq_error_iff fields]
  | sum kind cases => by
    rw [layout, flatten, Except.map_eq_error, Except.map_eq_error,
      payloadLayouts_eq_error_iff cases]
  | unsupported kind title => by
    rw [layout, flatten, Except.error.injEq, Except.error.injEq]
  | unresolved cause => by
    rw [layout, flatten, Except.error.injEq, Except.error.injEq]
termination_by structural s => s

theorem fieldLayouts_eq_error_iff : (fields : List (String × Shape)) →
    (fieldLayouts fields = .error e ↔ flattenFields fields = .error e)
  | [] => ⟨nofun, nofun⟩
  | (_, field) :: rest => by
    rw [fieldLayouts, flattenFields, Except.both_eq_error, Except.both_eq_error,
      layout_eq_error_iff field, exists_layout_iff field, fieldLayouts_eq_error_iff rest]
termination_by structural fields => fields

theorem payloadLayouts_eq_error_iff : (cases : List (String × Option Shape)) →
    (payloadLayouts cases = .error e ↔ flattenCases cases = .error e)
  | [] => ⟨nofun, nofun⟩
  | (_, none) :: rest => by
    rw [payloadLayouts, flattenCases, payloadLayouts_eq_error_iff rest]
  | (_, some payload) :: rest => by
    rw [payloadLayouts, flattenCases, Except.both_eq_error, Except.both_eq_error,
      layout_eq_error_iff payload, exists_layout_iff payload, payloadLayouts_eq_error_iff rest]
termination_by structural cases => cases

end

/-! ### Nothing to pass -/

/-- A sum has at least its case index. -/
theorem size_sum_ne_zero {kind : SumKind} {cases : List (String × Option Shape)} {l : Layout}
    (hl : (sum kind cases).layout = .ok l) : l.size ≠ 0 := by
  rw [layout] at hl
  obtain ⟨ls, hls, rfl⟩ := Except.map_eq_ok.1 hl
  have hle := (Layout.fits_tagged kind.aligning_discriminantSize
    (aligning_payloads cases hls)).index.le
  have hpos := kind.aligning_discriminantSize.pos
  exact Nat.ne_of_gt (Nat.lt_of_lt_of_le hpos (Nat.le_trans (Nat.le_add_left _ _) hle))

mutual

/-- A type has no words exactly if it has no bytes. -/
theorem flatten_eq_nil_iff : (s : Shape) → {kinds : List CoreType} → {l : Layout} →
    s.flatten = .ok kinds → s.layout = .ok l → (kinds = [] ↔ l.size = 0)
  | leaf lf, _, _, hk, hl => by
    rw [flatten] at hk
    rw [layout] at hl
    obtain ⟨_, -, rfl⟩ := Except.map_eq_ok.1 hk
    obtain ⟨_, -, rfl⟩ := Except.map_eq_ok.1 hl
    exact iff_of_false (List.cons_ne_nil _ _) lf.aligning_width.pos.ne'
  | string, _, _, hk, hl | list _, _, _, hk, hl => by
    cases hk
    cases hl
    exact iff_of_false (List.cons_ne_nil _ _) (Nat.succ_ne_zero 7)
  | product _ fields, _, _, hk, hl => by
    rw [flatten] at hk
    rw [layout] at hl
    obtain ⟨ls, hls, rfl⟩ := Except.map_eq_ok.1 hl
    rw [flattenFields_eq_nil_iff fields hk hls,
      Layout.size_sequence_eq_zero (aligning_fields fields hls)]
  | sum kind cases, _, _, hk, hl => by
    rw [flatten] at hk
    obtain ⟨_, -, rfl⟩ := Except.map_eq_ok.1 hk
    exact iff_of_false (List.cons_ne_nil _ _) (size_sum_ne_zero hl)
  | unsupported .., _, _, hk, _ | unresolved _, _, _, hk, _ => by
    rw [flatten] at hk
    cases hk
termination_by structural s => s

theorem flattenFields_eq_nil_iff : (fields : List (String × Shape)) → {kinds : List CoreType} →
    {ls : List Layout} → flattenFields fields = .ok kinds → fieldLayouts fields = .ok ls →
    (kinds = [] ↔ ∀ l ∈ ls, l.size = 0)
  | [], _, _, hk, hl => by
    cases hk
    cases hl
    exact iff_of_true rfl fun l hm => absurd hm List.not_mem_nil
  | (_, field) :: rest, _, _, hk, hl => by
    rw [flattenFields] at hk
    obtain ⟨words, hwords, hk⟩ := Except.bind_eq_ok.1 hk
    obtain ⟨more, hmore, hk⟩ := Except.bind_eq_ok.1 hk
    cases hk
    obtain ⟨l, ls, hfield, hrest, rfl⟩ := fieldLayouts_cons hl
    rw [List.append_eq_nil_iff, flatten_eq_nil_iff field hwords hfield,
      flattenFields_eq_nil_iff rest hmore hrest, List.forall_mem_cons]
termination_by structural fields => fields

end

mutual

/-- What takes no bytes may start at any address. -/
theorem align_eq_one : (s : Shape) → {l : Layout} → s.layout = .ok l → l.size = 0 → l.align = 1
  | leaf lf, _, hl, hz => by
    rw [layout] at hl
    obtain ⟨_, -, rfl⟩ := Except.map_eq_ok.1 hl
    exact absurd hz lf.aligning_width.pos.ne'
  | string, _, hl, hz | list _, _, hl, hz => by
    cases hl
    cases hz
  | product _ fields, _, hl, hz => by
    rw [layout] at hl
    obtain ⟨ls, hls, rfl⟩ := Except.map_eq_ok.1 hl
    have hsizes := (Layout.size_sequence_eq_zero (aligning_fields fields hls)).1 hz
    have haligns := aligns_eq_one fields hls hsizes
    exact Nat.le_antisymm (Layout.maxAlign_le (Nat.le_refl 1) fun l hm => (haligns l hm).le)
      (Layout.le_maxAlign 1 ls)
  | sum kind cases, _, hl, hz => absurd hz (size_sum_ne_zero hl)
  | unsupported .., _, hl, _ | unresolved _, _, hl, _ => by
    rw [layout] at hl
    cases hl
termination_by structural s => s

theorem aligns_eq_one : (fields : List (String × Shape)) → {ls : List Layout} →
    fieldLayouts fields = .ok ls → (∀ l ∈ ls, l.size = 0) → ∀ l ∈ ls, l.align = 1
  | [], _, hl, _ => by
    cases hl
    exact fun l hm => absurd hm List.not_mem_nil
  | (_, field) :: rest, _, hl, hz => by
    obtain ⟨l, ls, hfield, hrest, rfl⟩ := fieldLayouts_cons hl
    obtain ⟨hz, hzrest⟩ := List.forall_mem_cons.1 hz
    exact List.forall_mem_cons.2 ⟨align_eq_one field hfield hz, aligns_eq_one rest hrest hzrest⟩
termination_by structural fields => fields

end

/-- Nodes that have no values have no layout. -/
theorem isValueless_of_layout {inner : TypeId → Shape} {node : TypeNode} {l : Layout}
    (h : (ofNode inner node).layout = .ok l) : node.isValueless = false := by
  cases node with
  | function | interface | world | stream | future => cases h
  | _ => rfl

/-- Only products and sums are laid out by their components, and lists are not unfolded. -/
theorem isProduct_or_isSum {node : TypeNode} {part : TypeId} (hpart : part ∈ node.components)
    (hlist : ∀ element, node ≠ .list element) : node.IsProduct ∨ node.IsSum := by
  cases node with
  | tuple | record => exact .inl trivial
  | option | result | variant => exact .inr trivial
  | list element => exact absurd rfl (hlist element)
  | _ => cases hpart

end Shape

namespace Abi

variable {abi : Abi} {id : TypeId} {p : TypeNode → Bool} {visited pending : List TypeId}

/-! ### Searches -/

/-- The type has a layout, at least within some other types. -/
def LaidOut (abi : Abi) (id : TypeId) : Prop :=
  ∃ d path l, (abi.unfold d path id).layout = .ok l

/-- Types with a layout are found, have values, and unless they are lists, they are made of types
with a layout. -/
theorem LaidOut.step (h : abi.LaidOut id) : ∃ resolved node,
    abi.lookup id = .ok (resolved, node) ∧ node.isValueless = false ∧
      ((∀ element, node ≠ .list element) → ∀ part ∈ node.components, abi.LaidOut part) := by
  obtain ⟨d, path, l, h⟩ := h
  cases d with
  | zero => cases h
  | succ d =>
    rw [unfold] at h
    cases hnode : abi.lookup id with
    | error cause =>
      rw [hnode] at h
      cases h
    | ok found =>
      obtain ⟨resolved, node⟩ := found
      rw [hnode] at h
      dsimp only at h
      split at h
      · cases h
      · refine ⟨resolved, node, rfl, Shape.isValueless_of_layout h, fun hlist part hpart => ?_⟩
        obtain ⟨l, hl⟩ := Shape.exists_layout_component
          (Shape.isProduct_or_isSum hpart hlist) h part hpart
        exact ⟨d, _, l, hl⟩

/-- A search that ends at lists has an answer if what is pending has a layout. -/
theorem exists_searchWithin {steps : Nat} (hp : ∀ element, p (.list element) = true)
    (hpending : ∀ id ∈ pending, abi.LaidOut id)
    (hsteps : pending.length +
      abi.arena.unvisited (fun node => node.components.length) (· ∉ visited) < steps) :
    ∃ found, abi.searchWithin p steps visited pending = .ok found := by
  -- Every step takes a type off the pending ones. A node whose components it adds is visited from
  -- then on, so that its components count no more.
  induction steps generalizing visited pending with
  | zero => cases hsteps
  | succ steps ih =>
    cases pending with
    | nil => exact ⟨false, rfl⟩
    | cons next pending =>
      obtain ⟨hnext, hpending⟩ := List.forall_mem_cons.1 hpending
      obtain ⟨resolved, node, hnode, hvalues, hparts⟩ := hnext.step
      rw [List.length_cons] at hsteps
      rw [searchWithin, hnode]
      change ∃ found, (if resolved ∈ visited then _ else _) = _
      by_cases hvisited : resolved ∈ visited
      · rw [if_pos hvisited]
        exact ih hpending (by omega)
      rw [if_neg hvisited, hvalues]
      by_cases hfound : p node = true
      · exact ⟨true, if_pos hfound⟩
      rw [if_neg hfound, if_neg Bool.false_ne_true]
      have hlist : ∀ element, node ≠ .list element := by
        rintro element rfl
        exact hfound (hp element)
      have hvisit (other : TypeId) :
          other ∉ resolved :: visited ↔ other ∉ visited ∧ other ≠ resolved := by
        rw [List.mem_cons, not_or, and_comm]
      have hless := TypeArena.unvisited_add (fun node => node.components.length)
        (get?_of_lookup hnode) hvisited hvisit
      refine ih (List.forall_mem_append.2 ⟨fun part hpart => ?_, hpending⟩) ?_
      · exact hparts hlist part (List.mem_reverse.1 hpart)
      · rw [List.length_append, List.length_reverse]
        omega

/-- Whether values of a type with a layout may own memory can be found out. -/
theorem exists_needsDeallocate {l : Layout} (h : abi.layout id = .ok l) :
    ∃ deallocates, abi.needsDeallocate id = .ok deallocates := by
  refine exists_searchWithin (fun _ => rfl) (List.forall_mem_singleton.2 ⟨_, _, _, h⟩) ?_
  have := abi.arena.unvisited_le (fun node => node.components.length) (· ∉ [])
  rw [List.length_singleton, TypeArena.componentCount]
  omega

/-- A type either has both words and a layout, and then it is known what its values own and there
are no words exactly if there are no bytes, or it has neither, for the same reason. -/
theorem flatten_layout_agree (abi : Abi) (id : TypeId) :
    (∃ kinds l deallocates, abi.flatten id = .ok kinds ∧ abi.layout id = .ok l ∧
      abi.needsDeallocate id = .ok deallocates ∧ (kinds = [] ↔ l.size = 0)) ∨
    ∃ e, abi.flatten id = .error e ∧ abi.layout id = .error e := by
  cases hl : abi.layout id with
  | error e => exact .inr ⟨e, (Shape.layout_eq_error_iff _).1 hl, rfl⟩
  | ok l =>
    obtain ⟨kinds, hk⟩ := (Shape.exists_layout_iff _).1 ⟨l, hl⟩
    obtain ⟨deallocates, hd⟩ := exists_needsDeallocate hl
    exact .inl ⟨kinds, l, deallocates, hk, rfl, hd, Shape.flatten_eq_nil_iff _ hk hl⟩

end Abi

end ComponentAbi
