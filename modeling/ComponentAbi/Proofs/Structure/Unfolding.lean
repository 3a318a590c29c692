import ComponentAbi.Proofs.Marshal.Nesting
import ComponentAbi.Proofs.Shape.WordsAndBytes
import ComponentAbi.Proofs.Structure.Alike

/-!
# What unfoldings have in common

The shape of a type is cut off where the type comes up inside itself. Where that is depends on the
graph, on how much it shares, so alike types can have shapes that are not. Unfolding to a certain
depth, whatever comes up again (`Abi.peel`), does not depend on it.

What is computed along a shape, part by part, comes to the same in the end (`Abi.deepens_shape`): an
answer that there is for some depth is the answer for the shape. A type that comes up inside itself
once more has an answer in fewer levels outside than inside, and so was not needed. So alike types
are flattened and laid out alike (`Abi.Alike.flatten`, `Abi.Alike.layout`), and if they contain
themselves through lists only, their shapes are alike (`Abi.Alike.shape`).
-/

namespace ComponentAbi

section Answers

variable {α β : Type} {x y : Except AbiError α}

theorem Deepens.map (f : α → β) (h : Deepens x y) : Deepens (x.map f) (y.map f) := by
  rcases h with h | rfl
  · cases h
    exact .inl rfl
  · exact .refl _

/-- If there is no answer with more depth, there is none with less. -/
theorem Deepens.unanswered (h : Deepens x y) (hy : Unanswered y) : Unanswered x := by
  rcases h with h | rfl
  · exact h
  · exact hy

theorem SameAnswer.unanswered_iff {P : α → β → Prop} {z : Except AbiError β}
    (h : SameAnswer P x z) : Unanswered x ↔ Unanswered z := by
  cases h with
  | ok => exact iff_of_false (not_unanswered_ok _) (not_unanswered_ok _)
  | error alike =>
    rw [Unanswered, Unanswered, Except.error.injEq, Except.error.injEq,
      alike.eq_unboundedNesting_iff]

end Answers

/-! ### Answers for shapes -/

namespace Shape

variable {β : Type} {R : TypeId → TypeId → Prop} {inner inner' : TypeId → Shape} {node : TypeNode}

/-- There is no answer for what is cut off, and answers for the components are enough. -/
structure Gradual (F : Shape → Except AbiError β) : Prop where
  unanswered : Unanswered (F (unresolved .unboundedNesting))
  deepens (inner inner' : TypeId → Shape) (node : TypeNode) :
    (∀ id, Deepens (F (inner id)) (F (inner' id))) →
      Deepens (F (ofNode inner node)) (F (ofNode inner' node))

theorem deepens_flattenFields {α : Type} {shape shape' : α → Shape} (label : α → String)
    (xs : List α) (h : ∀ x, Deepens (shape x).flatten (shape' x).flatten) :
    Deepens (flattenFields (xs.map fun x => (label x, shape x)))
      (flattenFields (xs.map fun x => (label x, shape' x))) := by
  induction xs with
  | nil => exact .refl _
  | cons x xs ih => exact (h x).bind fun _ => ih.bind fun _ => .refl _

theorem deepens_flattenCases (cases : List (String × Option TypeId))
    (h : ∀ id, Deepens (inner id).flatten (inner' id).flatten) :
    Deepens (flattenCases (cases.map fun case => (case.1, case.2.map inner)))
      (flattenCases (cases.map fun case => (case.1, case.2.map inner'))) := by
  induction cases with
  | nil => exact .refl _
  | cons case cases ih =>
    obtain ⟨label, payload⟩ := case
    cases payload with
    | none => exact ih
    | some id => exact (h id).bind fun _ => ih.bind fun _ => .refl _

theorem gradual_flatten : Gradual flatten where
  unanswered := rfl
  deepens inner inner' node h := by
    cases node with
    | tuple elements => exact deepens_flattenFields (fun _ => "") elements h
    | record name fields => exact deepens_flattenFields (·.1) fields fun f => h f.2
    | option payload =>
      exact (deepens_flattenCases [("none", none), ("some", some payload)] h).map _
    | result ok err => exact (deepens_flattenCases [("ok", ok), ("error", err)] h).map _
    | variant name cases => exact (deepens_flattenCases cases h).map _
    | _ => exact .refl _

/-- The shape itself, unless a type in it contains itself without a list in between. -/
def settled (s : Shape) : Except AbiError Shape :=
  if s.wellNested then .ok s else .error .unboundedNesting

theorem settled_of_wellNested {s : Shape} (h : s.wellNested = true) : s.settled = .ok s :=
  if_pos h

theorem settled_eq_ok {s t : Shape} (h : s.settled = .ok t) : s.wellNested = true ∧ t = s := by
  unfold settled at h
  split at h
  · rename_i hs
    exact ⟨hs, (Except.ok.inj h).symm⟩
  · cases h

theorem wellNested_component (hnode : node.IsProduct ∨ node.IsSum)
    (h : (ofNode inner node).wellNested = true) :
    ∀ part ∈ node.components, (inner part).wellNested = true := by
  intro part hpart
  rcases hnode with hnode | hnode
  · obtain ⟨kind, fields, heq, hparts⟩ := ofNode_product inner hnode
    obtain ⟨field, hm, hfield⟩ := List.mem_map.1 (hparts ▸ List.mem_map_of_mem hpart)
    rw [heq] at h
    exact hfield ▸ wellNested_of_field h hm
  · obtain ⟨kind, cases, heq, hparts⟩ := ofNode_sum inner hnode
    obtain ⟨⟨label, payload⟩, hm, hcase⟩ :=
      List.mem_filterMap.1 (hparts ▸ List.mem_map_of_mem hpart)
    cases hcase
    rw [heq] at h
    exact wellNested_of_case h hm

theorem gradual_settled : Gradual settled where
  unanswered := rfl
  deepens inner inner' node h := by
    by_cases hw : (ofNode inner node).wellNested = true
    · refine .inr (congrArg settled (ofNode_congr fun hnode part hpart => ?_))
      have hpart := settled_of_wellNested (wellNested_component hnode hw part hpart)
      have hdeep := (h part).resolve_left (hpart ▸ not_unanswered_ok _)
      exact (settled_eq_ok (hdeep.trans hpart)).2.symm
    · exact .inl (if_neg hw)

mutual

/-- A type with core words does not contain itself without a list in between. -/
theorem wellNested_of_flatten : (s : Shape) → {kinds : List CoreType} → s.flatten = .ok kinds →
    s.wellNested = true
  | leaf _, _, _ | string, _, _ | list _, _, _ | unsupported .., _, _ => rfl
  | product _ fields, _, h => fieldsWellNested_of_flatten fields h
  | sum _ cases, _, h =>
    let ⟨_, hslots, _⟩ := Except.map_eq_ok.1 h
    casesWellNested_of_flatten cases hslots
  | unresolved _, _, h => nomatch h
termination_by structural s => s

theorem fieldsWellNested_of_flatten : (fields : List (String × Shape)) → {kinds : List CoreType} →
    flattenFields fields = .ok kinds → fieldsWellNested fields = true
  | [], _, _ => rfl
  | (_, s) :: rest, _, h => by
    obtain ⟨⟨_, hs⟩, _, hrest⟩ := Except.exists_both_eq_ok.1 ⟨_, h⟩
    rw [fieldsWellNested, wellNested_of_flatten s hs, fieldsWellNested_of_flatten rest hrest]
    rfl
termination_by structural fields => fields

theorem casesWellNested_of_flatten : (cases : List (String × Option Shape)) →
    {slots : List CoreType} → flattenCases cases = .ok slots → casesWellNested cases = true
  | [], _, _ => rfl
  | (_, none) :: rest, _, h => casesWellNested_of_flatten rest h
  | (_, some s) :: rest, _, h => by
    obtain ⟨⟨_, hs⟩, _, hrest⟩ := Except.exists_both_eq_ok.1 ⟨_, h⟩
    rw [casesWellNested, wellNested_of_flatten s hs, casesWellNested_of_flatten rest hrest]
    rfl
termination_by structural cases => cases

end

theorem wellNested_of_layout {s : Shape} {l : Layout} (h : s.layout = .ok l) :
    s.wellNested = true :=
  let ⟨_, hk⟩ := (exists_layout_iff s).1 ⟨l, h⟩
  wellNested_of_flatten s hk

mutual

theorem Alike.wellNested : {s s' : Shape} → s.Alike R s' → s.wellNested = s'.wellNested
  | _, _, .leaf _ | _, _, .string | _, _, .list _ | _, _, .unsupported _ => rfl
  | _, _, .product _ fields => fields.wellNested
  | _, _, .sum _ cases => cases.wellNested
  | _, _, .unresolved same => decide_eq_decide.2 (not_congr same.eq_unboundedNesting_iff)

theorem FieldsAlike.wellNested : {fields fields' : List (String × Shape)} →
    FieldsAlike R fields fields' → fieldsWellNested fields = fieldsWellNested fields'
  | _, _, .nil => rfl
  | _, _, .cons first rest => congrArg₂ and first.wellNested rest.wellNested

theorem CasesAlike.wellNested : {cases cases' : List (String × Option Shape)} →
    CasesAlike R cases cases' → casesWellNested cases = casesWellNested cases'
  | _, _, .nil => rfl
  | _, _, .bare rest => rest.wellNested
  | _, _, .payload first rest => congrArg₂ and first.wellNested rest.wellNested

end

theorem Alike.settled {s s' : Shape} (h : s.Alike R s') :
    SameAnswer (Alike R) s.settled s'.settled := by
  unfold Shape.settled
  rw [← h.wellNested]
  split
  · exact .ok h
  · exact .error (.refl _)

end Shape

namespace Abi

variable {abi abi' : Abi} {R : TypeId → TypeId → Prop} {β : Type} {F : Shape → Except AbiError β}
  {P : β → β → Prop} {id id' : TypeId}

/-! ### Unfolding without a path -/

/-- Unfolds a type to the given depth, also where it comes up inside itself. -/
def peel (abi : Abi) : Nat → TypeId → Shape
  | 0, _ => .unresolved .unboundedNesting
  | depth + 1, id =>
    match abi.lookup id with
    | .error cause => .unresolved cause
    | .ok (_, node) => Shape.ofNode (abi.peel depth) node

theorem peel_of_lookup_eq {other : TypeId} (h : abi.lookup id = abi.lookup other) (d : Nat) :
    abi.peel d id = abi.peel d other := by
  cases d with
  | zero => rfl
  | succ d => rw [peel, peel, h]

/-- Alike types are alike to any depth. -/
theorem Bisimulation.peel (hR : abi.Bisimulation abi' R) (h : R id id') (d : Nat) :
    (abi.peel d id).Alike R (abi'.peel d id') := by
  induction d generalizing id id' with
  | zero => exact .unresolved (.refl _)
  | succ d ih =>
    rw [Abi.peel, Abi.peel]
    rcases (hR id id' h).ok_or_error with ⟨_, _, hid, hid', hnode⟩ | ⟨_, _, hid, hid', he⟩
    · rw [hid, hid']
      exact hnode.ofNode fun part part' hpart => ih hpart
    · rw [hid, hid']
      exact .unresolved he

theorem deepens_peel (hF : Shape.Gradual F) (id : TypeId) (d : Nat) :
    Deepens (F (abi.peel d id)) (F (abi.peel (d + 1) id)) := by
  induction d generalizing id with
  | zero => exact .inl hF.unanswered
  | succ d ih =>
    rw [peel, peel]
    cases abi.lookup id with
    | error cause => exact .refl _
    | ok found => exact hF.deepens _ _ _ ih

/-- Cutting off can only take answers away. -/
theorem deepens_unfold (hF : Shape.Gradual F) (d : Nat) (path : List TypeId) (id : TypeId) :
    Deepens (F (abi.unfold d path id)) (F (abi.peel d id)) := by
  induction d generalizing path id with
  | zero => exact .refl _
  | succ d ih =>
    rw [unfold, peel]
    cases abi.lookup id with
    | error cause => exact .refl _
    | ok found =>
      dsimp only
      split
      · exact .inl hF.unanswered
      · exact hF.deepens _ _ _ (ih _)

/-- It takes none away from a type within types that have no answer at a depth at which it has one:
such a type is none of them, and has components that have an answer one level deeper in. -/
theorem deepens_unfold_of_path (hF : Shape.Gradual F) (depth : Nat) {d : Nat} {path : List TypeId}
    (hnodup : path.Nodup) (hin : ∀ r ∈ path, r.index < abi.arena.size)
    (hd : d + path.length = abi.arena.size + 1)
    (hpath : ∀ r ∈ path, Unanswered (F (abi.peel depth r))) :
    Deepens (F (abi.peel depth id)) (F (abi.unfold d path id)) := by
  induction depth generalizing d path id with
  | zero => exact .inl hF.unanswered
  | succ depth ih =>
    have hpath' (r : TypeId) (hr : r ∈ path) : Unanswered (F (abi.peel depth r)) :=
      (deepens_peel hF r depth).unanswered (hpath r hr)
    by_cases hshallow : Unanswered (F (abi.peel depth id))
    · obtain ⟨d, rfl⟩ : ∃ n, d = n + 1 := by
        have := TypeArena.length_le_size hnodup hin
        exact ⟨d - 1, by omega⟩
      rw [unfold]
      cases hid : abi.lookup id with
      | error cause =>
        rw [peel, hid]
        exact .refl _
      | ok found =>
        obtain ⟨resolved, node⟩ := found
        have hsame (n : Nat) : abi.peel n resolved = abi.peel n id :=
          peel_of_lookup_eq ((lookup_resolved hid).trans hid.symm) n
        dsimp only
        split
        · rename_i hagain
          exact .inl (hsame _ ▸ hpath resolved hagain)
        · rename_i hnew
          rw [peel, hid]
          refine hF.deepens _ _ _ fun part => ih (List.nodup_cons.2 ⟨hnew, hnodup⟩) ?_ ?_ ?_
          · exact List.forall_mem_cons.2 ⟨TypeArena.index_lt_of_get? (get?_of_lookup hid), hin⟩
          · rw [List.length_cons]
            omega
          · exact List.forall_mem_cons.2 ⟨hsame _ ▸ hshallow, hpath'⟩
    · rw [(deepens_peel hF id depth).resolve_left hshallow]
      exact ih hnodup hin hd hpath'

/-- An answer for any depth is the answer for the shape. -/
theorem deepens_shape (hF : Shape.Gradual F) (d : Nat) (id : TypeId) :
    Deepens (F (abi.peel d id)) (F (abi.shape id)) :=
  deepens_unfold_of_path hF d List.nodup_nil (fun _ h => absurd h List.not_mem_nil) rfl
    fun _ h => absurd h List.not_mem_nil

/-- Alike types have the same answer if alike shapes have. -/
theorem Bisimulation.answer (hR : abi.Bisimulation abi' R) (h : R id id') (hF : Shape.Gradual F)
    (hsame : ∀ s s', s.Alike R s' → SameAnswer P (F s) (F s')) :
    SameAnswer P (F (abi.shape id)) (F (abi'.shape id')) := by
  have hpeel (d : Nat) : SameAnswer P (F (abi.peel d id)) (F (abi'.peel d id')) :=
    hsame _ _ (hR.peel h d)
  by_cases hanswer : Unanswered (F (abi.shape id))
  · have hanswer' : Unanswered (F (abi'.shape id')) := by
      refine (deepens_unfold hF (abi'.arena.size + 1) [] id').unanswered ?_
      exact (hpeel _).unanswered_iff.1 ((deepens_shape hF _ id).unanswered hanswer)
    rw [hanswer, hanswer']
    exact .error (.refl _)
  · have hdeep := (deepens_unfold hF (abi.arena.size + 1) [] id).resolve_left hanswer
    have hsame := hpeel (abi.arena.size + 1)
    rw [hdeep] at hsame
    have hanswer' := mt hsame.unanswered_iff.2 hanswer
    rw [(deepens_shape hF _ id').resolve_left hanswer']
    exact hsame

theorem shape_of_lookup_error {cause : AbiError} (h : abi.lookup id = .error cause) :
    abi.shape id = .unresolved cause := by
  rw [shape, unfold, h]

/-! ### Types with the same structure -/

namespace Alike

theorem flatten (h : abi.Alike abi' id id') :
    SameAnswer Eq (abi.flatten id) (abi'.flatten id') :=
  (bisimulation_alike abi abi').answer h Shape.gradual_flatten fun _ _ hs => hs.flatten

theorem settled (h : abi.Alike abi' id id') :
    SameAnswer (Shape.Alike (abi.Alike abi')) (abi.shape id).settled (abi'.shape id').settled :=
  (bisimulation_alike abi abi').answer h Shape.gradual_settled fun _ _ hs => hs.settled

/-- Types that contain themselves through lists only have alike shapes. -/
theorem shape (h : abi.Alike abi' id id') (hw : (abi.shape id).wellNested = true) :
    (abi.shape id).Alike (abi.Alike abi') (abi'.shape id') := by
  rcases h.settled.ok_or_error with ⟨s, s', hs, hs', halike⟩ | ⟨e, _, he, -, -⟩
  · rwa [(Shape.settled_eq_ok hs).2, (Shape.settled_eq_ok hs').2] at halike
  · rw [Shape.settled_of_wellNested hw] at he
    cases he

theorem layout (h : abi.Alike abi' id id') : SameAnswer Eq (abi.layout id) (abi'.layout id') := by
  rcases h.flatten.ok_or_error with ⟨kinds, _, hk, -, -⟩ | ⟨e, e', he, he', halike⟩
  · exact (h.shape (Shape.wellNested_of_flatten _ hk)).layout
  · rw [Abi.layout, Abi.layout, (Shape.layout_eq_error_iff _).2 he,
      (Shape.layout_eq_error_iff _).2 he']
    exact .error halike

theorem fieldOffsets {ids ids' : List TypeId} (h : List.Forall₂ (abi.Alike abi') ids ids') :
    SameAnswer Eq (abi.fieldOffsets ids) (abi'.fieldOffsets ids') := by
  rw [Abi.fieldOffsets, Abi.fieldOffsets, Shape.fieldOffsets, Shape.fieldOffsets,
    fieldLayouts_fieldsOf, fieldLayouts_fieldsOf]
  exact (SameAnswer.mapM h fun _ _ hid => hid.layout).map fun _ _ => congrArg _

/-- The placement of a sum fails as its layout does. -/
theorem sumLayout_of_shapes {kind kind' : SumKind} {cases cases' : List (String × Option Shape)}
    (h : abi.Alike abi' id id') (hs : abi.shape id = .sum kind cases)
    (hs' : abi'.shape id' = .sum kind' cases') :
    SameAnswer Eq (Shape.sumLayout kind cases) (Shape.sumLayout kind' cases') := by
  rcases h.layout.ok_or_error with ⟨l, _, hl, -, -⟩ | ⟨e, e', he, he', halike⟩
  · have hshape := h.shape (Shape.wellNested_of_layout hl)
    rw [hs, hs'] at hshape
    cases hshape with
    | sum kind cases => exact cases.sumLayout kind
  · rw [Abi.layout, hs, Shape.layout] at he
    rw [Abi.layout, hs', Shape.layout] at he'
    rw [Shape.sumLayout, Shape.sumLayout, Except.map_eq_error.1 he, Except.map_eq_error.1 he']
    exact .error halike

theorem sumLayout (h : abi.Alike abi' id id') :
    SameAnswer Eq (abi.sumLayout id) (abi'.sumLayout id') := by
  rcases h.lookup.ok_or_error with ⟨found, found', hid, hid', hnode⟩ | ⟨e, e', hid, hid', he⟩
  · obtain ⟨inner, hs⟩ := exists_shape_of_lookup hid
    obtain ⟨inner', hs'⟩ := exists_shape_of_lookup hid'
    obtain ⟨resolved, node⟩ := found
    obtain ⟨resolved', node'⟩ := found'
    rw [Abi.sumLayout, Abi.sumLayout, hs, hs']
    cases hnode with
    | option | result | variant => exact h.sumLayout_of_shapes hs hs'
    | valueless left right kind =>
      rw [Shape.ofNode_of_isValueless left, Shape.ofNode_of_isValueless right, kind]
      exact .refl _
    | _ => exact .refl _
  · rw [Abi.sumLayout, Abi.sumLayout, shape_of_lookup_error hid, shape_of_lookup_error hid']
    exact .error he

end Alike

end Abi

end ComponentAbi
