import ComponentAbi.Plan.Generate
import ComponentAbi.Proofs.Arena
import ComponentAbi.Proofs.Except
import ComponentAbi.Proofs.Shape.Placement
import ComponentAbi.Proofs.Shape.Unfold

/-!
# Types that plans can be made for

A type is passable if it can be looked up, has values, and is not part of itself, and if the same is
so of all types that it is made of, the elements of its lists included (`Abi.Passable`). Flattening
and layout do not look into the elements of lists, plans do.

The types that a type is nested in are all different, so there are at most as many of them as there
are nodes. The depth that plans are generated with is therefore enough for every passable type
(`Abi.Passable.within`).
-/

namespace ComponentAbi

namespace TypeNode

/-- The node has values, if those it is made of have. -/
def HasValues : TypeNode → Prop
  | flags _ labels => labels.length ≤ maxFlags
  | function _ | interface _ | world _ | stream _ | future _ | reference _ => False
  | _ => True

end TypeNode

namespace Abi

/-- Inside the types of the path, values of the type can be passed: it is none of those types, and
neither is any type that it is made of, in its lists as well. -/
inductive Passable (abi : Abi) : List TypeId → TypeId → Prop where
  | mk {path : List TypeId} {id resolved : TypeId} {node : TypeNode}
    (found : abi.lookup id = .ok (resolved, node)) (new : resolved ∉ path)
    (valued : node.HasValues)
    (parts : ∀ part ∈ node.components, Passable abi (resolved :: path) part) :
    Passable abi path id

/-- Values of the shape can be passed, and their types, in lists as well, are nested less than
`depth` deep. -/
def PassableWithin (abi : Abi) : Nat → Shape → Prop
  | 0, _ => False
  | depth + 1, shape =>
    match shape with
    | .leaf l => l.check = .ok ()
    | .string => True
    | .list element => PassableWithin abi depth (abi.shape element)
    | .product _ fields => ∀ field ∈ fields, PassableWithin abi depth field.2
    | .sum _ cases => ∀ label s, (label, some s) ∈ cases → PassableWithin abi depth s
    | .unsupported .. | .unresolved _ => False

variable {abi : Abi} {d n : Nat} {path path' : List TypeId} {id : TypeId} {s : Shape}

/-! ### Depth -/

theorem passableWithin_ofNode {inner : TypeId → Shape} {node : TypeNode} (hv : node.HasValues)
    (h : ∀ part ∈ node.components,
      abi.PassableWithin d (inner part) ∧ abi.PassableWithin d (abi.shape part)) :
    abi.PassableWithin (d + 1) (Shape.ofNode inner node) := by
  have hcases : ∀ cases : List (String × Option TypeId),
      (∀ part ∈ cases.filterMap (·.2), abi.PassableWithin d (inner part)) →
      ∀ label s, (label, some s) ∈ cases.map (fun case => (case.1, case.2.map inner)) →
        abi.PassableWithin d s := by
    intro cases hparts label s hm
    obtain ⟨⟨label', c⟩, hc, he⟩ := List.mem_map.1 hm
    cases c with
    | none => cases he
    | some part =>
      cases he
      exact hparts part (List.mem_filterMap.2 ⟨_, hc, rfl⟩)
  cases node with
  | scalar | enum | resource | borrow => rfl
  | string => trivial
  | flags name labels =>
    exact if_neg (Nat.not_lt.2 hv)
  | list element => exact (h element (List.mem_singleton_self _)).2
  | tuple elements =>
    intro field hm
    obtain ⟨e, he, rfl⟩ := List.mem_map.1 hm
    exact (h e he).1
  | record name fields =>
    intro field hm
    obtain ⟨f, hf, rfl⟩ := List.mem_map.1 hm
    exact (h f.2 (List.mem_map_of_mem hf)).1
  | variant name cases => exact hcases cases fun part hm => (h part hm).1
  | option payload =>
    exact hcases [("none", none), ("some", some payload)] fun part hm => (h part hm).1
  | result ok err =>
    refine hcases [("ok", ok), ("error", err)] fun part hm => (h part ?_).1
    cases ok <;> cases err <;> exact hm
  | function | interface | world | stream | future | reference => exact hv.elim

/-- Unfolded inside some of the types it is nested in, a passable type is nested no more deeply than
there are nodes left. -/
theorem Passable.unfold (h : abi.Passable path id) (hn : path.Nodup)
    (ha : ∀ r ∈ path, r.index < abi.arena.size) (hn' : path'.Nodup) (hsub : path' ⊆ path)
    (hd : abi.arena.size ≤ d + path.length) (hu : abi.arena.size ≤ n + path'.length) :
    abi.PassableWithin d (abi.unfold n path' id) := by
  induction h generalizing path' d n with
  | @mk path id resolved node found new valued parts ih =>
    have hnew : resolved ∉ path' := fun hm => new (hsub hm)
    have hin : ∀ r ∈ resolved :: path, r.index < abi.arena.size :=
      List.forall_mem_cons.2
        ⟨(Array.getElem?_eq_some_iff.1 (get?_of_lookup found)).1, ha⟩
    have hnodup : (resolved :: path).Nodup := List.nodup_cons.2 ⟨new, hn⟩
    have hnodup' : (resolved :: path').Nodup := List.nodup_cons.2 ⟨hnew, hn'⟩
    have hsub' : resolved :: path' ⊆ resolved :: path := List.cons_subset_cons _ hsub
    have hle := TypeArena.length_le_size hnodup hin
    have hle' := TypeArena.length_le_size hnodup' fun r hr => hin r (hsub' hr)
    rw [List.length_cons] at hle hle'
    obtain ⟨d, rfl⟩ : ∃ d', d = d' + 1 := ⟨d - 1, by omega⟩
    obtain ⟨n, rfl⟩ : ∃ n', n = n' + 1 := ⟨n - 1, by omega⟩
    rw [Abi.unfold, found]
    dsimp only
    rw [if_neg hnew]
    refine passableWithin_ofNode valued fun part hm => ⟨?_, ?_⟩
    · exact ih part hm hnodup hin hnodup' hsub' (by rw [List.length_cons]; omega)
        (by rw [List.length_cons]; omega)
    · exact ih part hm hnodup hin List.nodup_nil (List.nil_subset _)
        (by rw [List.length_cons]; omega) (Nat.le_succ _)

/-- Passable types are nested less deeply than plans can be. -/
theorem Passable.within (h : abi.Passable [] id) :
    abi.PassableWithin (Plan.depthBound abi) (abi.shape id) :=
  h.unfold List.nodup_nil (fun _ hr => absurd hr List.not_mem_nil) List.nodup_nil
    (List.nil_subset _) (Nat.le_add_right _ 2) (Nat.le_succ _)

/-! ### Layout and words -/

theorem fieldLayouts_of_forall {fields : List (String × Shape)}
    (h : ∀ field ∈ fields, ∃ l, field.2.layout = .ok l) :
    ∃ ls, Shape.fieldLayouts fields = .ok ls := by
  induction fields with
  | nil => exact ⟨[], rfl⟩
  | cons field fields ih =>
    obtain ⟨hfield, hrest⟩ := List.forall_mem_cons.1 h
    rw [Shape.fieldLayouts]
    exact Except.exists_both_eq_ok.2 ⟨hfield, ih hrest⟩

theorem payloadLayouts_of_forall {cases : List (String × Option Shape)}
    (h : ∀ label s, (label, some s) ∈ cases → ∃ l, s.layout = .ok l) :
    ∃ ls, Shape.payloadLayouts cases = .ok ls := by
  induction cases with
  | nil => exact ⟨[], rfl⟩
  | cons case cases ih =>
    obtain ⟨label, payload⟩ := case
    have hrest := ih fun label s hm => h label s (List.mem_cons_of_mem _ hm)
    cases payload with
    | none => exact hrest
    | some s =>
      rw [Shape.payloadLayouts]
      exact Except.exists_both_eq_ok.2 ⟨h label s List.mem_cons_self, hrest⟩

theorem PassableWithin.layout (h : abi.PassableWithin d s) : ∃ l, s.layout = .ok l := by
  induction d generalizing s with
  | zero => exact h.elim
  | succ d ih =>
    cases s with
    | leaf l =>
      have hcheck : l.check = .ok () := h
      rw [Shape.layout, hcheck]
      exact ⟨_, rfl⟩
    | string | list => exact ⟨_, rfl⟩
    | product kind fields =>
      rw [Shape.layout]
      exact Except.exists_map_eq_ok.2 (fieldLayouts_of_forall fun field hm => ih (h field hm))
    | sum kind cases =>
      rw [Shape.layout]
      exact Except.exists_map_eq_ok.2 (payloadLayouts_of_forall fun label s hm => ih (h label s hm))
    | unsupported | unresolved => exact h.elim

theorem PassableWithin.flatten (h : abi.PassableWithin d s) : ∃ kinds, s.flatten = .ok kinds :=
  (Shape.exists_layout_iff s).1 h.layout

theorem PassableWithin.offsets {kind : ProductKind} {fields : List (String × Shape)}
    (h : abi.PassableWithin d (.product kind fields)) :
    ∃ offsets, Shape.fieldOffsets fields = .ok offsets := by
  obtain ⟨l, hl⟩ := h.layout
  rw [Shape.layout] at hl
  exact Except.exists_map_eq_ok.2 (Except.exists_map_eq_ok.1 ⟨l, hl⟩)

theorem PassableWithin.placement {kind : SumKind} {cases : List (String × Option Shape)}
    (h : abi.PassableWithin d (.sum kind cases)) :
    ∃ sl, Shape.sumLayout kind cases = .ok sl := by
  obtain ⟨l, hl⟩ := h.layout
  rw [Shape.layout] at hl
  exact Except.exists_map_eq_ok.2 (Except.exists_map_eq_ok.1 ⟨l, hl⟩)

theorem PassableWithin.slots {kind : SumKind} {cases : List (String × Option Shape)}
    (h : abi.PassableWithin d (.sum kind cases)) :
    ∃ slots, Shape.flattenCases cases = .ok slots := by
  obtain ⟨kinds, hk⟩ := h.flatten
  rw [Shape.flatten] at hk
  exact Except.exists_map_eq_ok.1 ⟨kinds, hk⟩

end Abi

end ComponentAbi
