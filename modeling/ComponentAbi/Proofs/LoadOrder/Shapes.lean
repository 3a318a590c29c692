import ComponentAbi.Proofs.LoadOrder.Lookups
import ComponentAbi.Proofs.Resolve.Chain
import ComponentAbi.Signature

/-!
# Types cross the boundary in the same way

Two graphs may have the same nodes under different ids (`Abi.Renumbers`), as those of projects that
were loaded in different orders do (`Project.Renumbers.abi`). Then a type unfolds to the same shape
in both, up to the ids of list elements (`Abi.Renumbers.shape`), so that it flattens and is laid out
alike, and a function has the same signature (`Abi.Renumbers.functionSignature`).

The errors are the same as well: an error has an id in it only if there is no node of that id, and
such ids are not changed.
-/

namespace ComponentAbi

variable {ρ : TypeId → TypeId}

theorem Except.map_bind {ε α β γ : Type} {x : Except ε α} {f : α → Except ε β}
    {g : α → Except ε γ} {r : β → γ} (h : ∀ a, g a = (f a).map r) :
    (x >>= g) = (x >>= f).map r := by
  cases x with
  | error e => rfl
  | ok a => exact h a

/-! ### Nodes -/

namespace TypeNode

@[simp] theorem title_rename (node : TypeNode) : (node.rename ρ).title = node.title := by
  cases node <;> rfl

@[simp] theorem isValueless_rename (node : TypeNode) :
    (node.rename ρ).isValueless = node.isValueless := by
  cases node <;> rfl

theorem components_rename (node : TypeNode) :
    (node.rename ρ).components = node.components.map ρ := by
  cases node with
  | result ok err => cases ok <;> cases err <;> rfl
  | variant name cases =>
    simp only [rename, components, List.filterMap_map, List.map_filterMap]
    rfl
  | _ => simp [rename, components]

end TypeNode

/-! ### Graphs with other ids -/

/-- The nodes of the first graph are found in the second under their new ids, and references stand
for the same nodes in both. -/
structure Abi.Renumbers (ρ : TypeId → TypeId) (abi abi' : Abi) : Prop where
  /-- Different nodes have different ids. -/
  injective : Function.Injective ρ
  /-- What an id stands for. -/
  lookup : ∀ id, abi'.lookup (ρ id) =
    (abi.lookup id).map fun found => (ρ found.1, found.2.rename ρ)
  /-- There are as many nodes. -/
  size_eq : abi'.arena.size = abi.arena.size
  /-- The nodes have as many components. -/
  componentCount_eq : abi'.arena.componentCount = abi.arena.componentCount

namespace Project

variable {p q : Project} {id : TypeId} {node : TypeNode}

namespace Renumbers

theorem eq_self_of_get? (h : p.Renumbers ρ q) (hid : p.arena.get? id = none) : ρ id = id :=
  h.fixes id (Array.getElem?_eq_none_iff.1 hid)

theorem get?_of_none (h : p.Renumbers ρ q) (hid : p.arena.get? id = none) :
    q.arena.get? (ρ id) = none := by
  rw [h.node, hid]
  rfl

theorem get?_of_some (h : p.Renumbers ρ q) (hid : p.arena.get? id = some node) :
    q.arena.get? (ρ id) = some (node.rename ρ) := by
  rw [h.node, hid]
  rfl

/-- With a hop left for every node that was not visited, the hops do not run out, and the answer
is no other than in the other graph. -/
theorem follow (h : p.Renumbers ρ q) (hops : Nat) (visited : List TypeId) (id : TypeId)
    (hn : hops + visited.length = p.arena.size + 1) (hnodup : visited.Nodup)
    (hin : ∀ v ∈ visited, v.index < p.arena.size) :
    q.store.follow q.arena hops (visited.map ρ) (ρ id) =
      (p.store.follow p.arena hops visited id).map ρ := by
  induction hops generalizing visited id with
  | zero =>
    have := TypeArena.length_le_size hnodup hin
    omega
  | succ hops ih =>
    rw [PackageStore.follow, PackageStore.follow]
    cases hid : p.arena.get? id with
    | none =>
      rw [h.get?_of_none hid, h.eq_self_of_get? hid]
      rfl
    | some node =>
      rw [h.get?_of_some hid]
      cases node with
      | reference target =>
        simp only [TypeNode.rename, List.mem_map_of_injective h.injective]
        split
        · rfl
        · rename_i hnew
          rw [PackageStore.Mirrors.hop h.store]
          cases p.store.hop target with
          | error e => rfl
          | ok next =>
            refine ih (id :: visited) next ?_ (List.nodup_cons.2 ⟨hnew, hnodup⟩)
              (List.forall_mem_cons.2 ⟨TypeArena.index_lt_of_get? hid, hin⟩)
            rw [List.length_cons]
            omega
      | _ => rfl

/-- References resolve to the same nodes. -/
theorem resolve (h : p.Renumbers ρ q) (id : TypeId) :
    q.resolve (ρ id) = (p.resolve id).map ρ := by
  have hfollow := h.follow (p.arena.size + 1) [] id rfl List.nodup_nil
    fun _ h => absurd h List.not_mem_nil
  rw [Project.resolve, PackageStore.resolve, h.size_eq]
  exact hfollow

theorem lookup (h : p.Renumbers ρ q) (id : TypeId) : q.abi.lookup (ρ id) =
    (p.abi.lookup id).map fun found => (ρ found.1, found.2.rename ρ) := by
  change Abi.lookup ⟨q.arena, some q.store⟩ (ρ id) = (Abi.lookup ⟨p.arena, some p.store⟩ id).map _
  rw [Abi.lookup, Abi.lookup]
  dsimp only
  cases hid : p.arena.get? id with
  | none =>
    rw [h.get?_of_none hid, h.eq_self_of_get? hid]
    rfl
  | some node =>
    rw [h.get?_of_some hid]
    cases node with
    | reference target =>
      have hresolve : q.store.resolve q.arena (ρ id) = (p.store.resolve p.arena id).map ρ :=
        h.resolve id
      simp only [TypeNode.rename, hresolve]
      cases p.store.resolve p.arena id with
      | error e => rfl
      | ok resolved =>
        simp only [Except.map, Except.mapError, bind, Except.bind]
        cases hresolved : p.arena.get? resolved with
        | none =>
          rw [h.get?_of_none hresolved, h.eq_self_of_get? hresolved]
          rfl
        | some node =>
          rw [h.get?_of_some hresolved]
          rfl
    | _ => rfl

/-- Projects with the same nodes under other ids have the same types. -/
theorem abi (h : p.Renumbers ρ q) : p.abi.Renumbers ρ q.abi where
  injective := h.injective
  lookup := h.lookup
  size_eq := h.size_eq
  componentCount_eq := by
    have hperm := h.perm.map fun node : TypeNode => node.components.length
    rw [List.map_map] at hperm
    refine hperm.sum_nat.trans (congrArg List.sum (List.map_congr_left fun node _ => ?_))
    rw [Function.comp_apply, TypeNode.components_rename, List.length_map]

end Renumbers

end Project

/-! ### Shapes -/

namespace Shape

mutual

/-- The shape with the elements of lists renamed. -/
def rename (ρ : TypeId → TypeId) : Shape → Shape
  | list element => list (ρ element)
  | product kind fields => product kind (renameFields ρ fields)
  | sum kind cases => sum kind (renameCases ρ cases)
  | leaf l => leaf l
  | string => string
  | unsupported kind title => unsupported kind title
  | unresolved cause => unresolved cause
termination_by structural s => s

/-- `Shape.rename` on all fields. -/
def renameFields (ρ : TypeId → TypeId) : List (String × Shape) → List (String × Shape)
  | [] => []
  | (label, field) :: rest => (label, field.rename ρ) :: renameFields ρ rest
termination_by structural fields => fields

/-- `Shape.rename` on all payloads. -/
def renameCases (ρ : TypeId → TypeId) : List (String × Option Shape) → List (String × Option Shape)
  | [] => []
  | (label, none) :: rest => (label, none) :: renameCases ρ rest
  | (label, some payload) :: rest => (label, some (payload.rename ρ)) :: renameCases ρ rest
termination_by structural cases => cases

end

theorem renameFields_eq (fields : List (String × Shape)) :
    renameFields ρ fields = fields.map fun f => (f.1, f.2.rename ρ) := by
  induction fields with
  | nil => rfl
  | cons field rest ih =>
    rw [renameFields, ih]
    rfl

theorem renameCases_eq (cases : List (String × Option Shape)) :
    renameCases ρ cases = cases.map fun c => (c.1, c.2.map (rename ρ)) := by
  induction cases with
  | nil => rfl
  | cons case rest ih =>
    obtain ⟨label, payload⟩ := case
    cases payload <;> rw [renameCases, ih] <;> rfl

mutual

@[simp] theorem flatten_rename : ∀ s : Shape, (s.rename ρ).flatten = s.flatten
  | product _ fields => flattenFields_rename fields
  | sum _ cases => congrArg (Except.map _) (flattenCases_rename cases)
  | leaf _ | string | list _ | unsupported .. | unresolved _ => rfl
termination_by structural s => s

theorem flattenFields_rename :
    ∀ fields, flattenFields (renameFields ρ fields) = flattenFields fields
  | [] => rfl
  | (label, field) :: rest => by
    rw [renameFields, flattenFields, flattenFields, flatten_rename field, flattenFields_rename rest]
termination_by structural fields => fields

theorem flattenCases_rename : ∀ cases, flattenCases (renameCases ρ cases) = flattenCases cases
  | [] => rfl
  | (label, none) :: rest => flattenCases_rename rest
  | (label, some payload) :: rest => by
    rw [renameCases, flattenCases, flattenCases, flatten_rename payload, flattenCases_rename rest]
termination_by structural cases => cases

end

mutual

@[simp] theorem layout_rename : ∀ s : Shape, (s.rename ρ).layout = s.layout
  | product _ fields => congrArg (Except.map _) (fieldLayouts_rename fields)
  | sum _ cases => congrArg (Except.map _) (payloadLayouts_rename cases)
  | leaf _ | string | list _ | unsupported .. | unresolved _ => rfl
termination_by structural s => s

theorem fieldLayouts_rename : ∀ fields, fieldLayouts (renameFields ρ fields) = fieldLayouts fields
  | [] => rfl
  | (label, field) :: rest => by
    rw [renameFields, fieldLayouts, fieldLayouts, layout_rename field, fieldLayouts_rename rest]
termination_by structural fields => fields

theorem payloadLayouts_rename :
    ∀ cases, payloadLayouts (renameCases ρ cases) = payloadLayouts cases
  | [] => rfl
  | (label, none) :: rest => payloadLayouts_rename rest
  | (label, some payload) :: rest => by
    rw [renameCases, payloadLayouts, payloadLayouts, layout_rename payload,
      payloadLayouts_rename rest]
termination_by structural cases => cases

end

theorem ofNode_rename {inner inner' : TypeId → Shape}
    (h : ∀ id, inner' (ρ id) = (inner id).rename ρ) (node : TypeNode) :
    ofNode inner' (node.rename ρ) = (ofNode inner node).rename ρ := by
  have hpayload (o : Option TypeId) :
      (o.map ρ).map inner' = (o.map inner).map (rename ρ) := by
    cases o with
    | none => rfl
    | some id => exact congrArg some (h id)
  cases node with
  | tuple elements | record name fields =>
    simp [TypeNode.rename, ofNode, rename, renameFields_eq, Function.comp_def, h]
  | option payload => simp [TypeNode.rename, ofNode, rename, renameCases_eq, h]
  | result ok err =>
    simp only [TypeNode.rename, ofNode, rename, renameCases_eq, hpayload, List.map_cons,
      List.map_nil]
  | variant name cases =>
    simp [TypeNode.rename, ofNode, rename, renameCases_eq, Function.comp_def, hpayload]
  | _ => rfl

end Shape

/-! ### Signatures -/

/-- The signature with the types renamed. -/
def Signature.rename (ρ : TypeId → TypeId) (s : Signature) : Signature :=
  { s with
    paramTypes := s.paramTypes.map ρ
    resultTypes := s.resultTypes.map ρ }

@[simp] theorem FunctionType.results_rename (f : FunctionType) :
    (f.rename ρ).results = f.results.map ρ := rfl

@[simp] theorem FunctionType.paramTypes_rename (f : FunctionType) :
    (f.rename ρ).paramTypes = f.paramTypes.map ρ := by
  simp [rename, paramTypes]

namespace Abi.Renumbers

variable {abi abi' : Abi} {p p' : TypeNode → Bool}

theorem unfold (h : abi.Renumbers ρ abi') (depth : Nat) (path : List TypeId) (id : TypeId) :
    abi'.unfold depth (path.map ρ) (ρ id) = (abi.unfold depth path id).rename ρ := by
  induction depth generalizing path id with
  | zero => rfl
  | succ depth ih =>
    rw [Abi.unfold, Abi.unfold, h.lookup]
    cases abi.lookup id with
    | error cause => rfl
    | ok found =>
      obtain ⟨resolved, node⟩ := found
      simp only [Except.map, List.mem_map_of_injective h.injective]
      split
      · rfl
      · exact Shape.ofNode_rename (ih (resolved :: path)) node

/-- A type unfolds to the same shape. -/
theorem shape (h : abi.Renumbers ρ abi') (id : TypeId) :
    abi'.shape (ρ id) = (abi.shape id).rename ρ := by
  rw [Abi.shape, h.size_eq]
  exact h.unfold _ [] id

theorem flatten (h : abi.Renumbers ρ abi') (id : TypeId) :
    abi'.flatten (ρ id) = abi.flatten id := by
  rw [Abi.flatten, h.shape, Shape.flatten_rename]
  rfl

theorem layout (h : abi.Renumbers ρ abi') (id : TypeId) : abi'.layout (ρ id) = abi.layout id := by
  rw [Abi.layout, h.shape, Shape.layout_rename]
  rfl

theorem fieldsOf (h : abi.Renumbers ρ abi') (ids : List TypeId) :
    abi'.fieldsOf (ids.map ρ) = Shape.renameFields ρ (abi.fieldsOf ids) := by
  rw [Abi.fieldsOf, Abi.fieldsOf, Shape.renameFields_eq, List.map_map, List.map_map]
  exact List.map_congr_left fun id _ => congrArg ("", ·) (h.shape id)

theorem flattenAll (h : abi.Renumbers ρ abi') (ids : List TypeId) :
    abi'.flattenAll (ids.map ρ) = abi.flattenAll ids := by
  change Shape.flattenFields (abi'.fieldsOf (ids.map ρ)) = _
  rw [h.fieldsOf, Shape.flattenFields_rename]
  rfl

theorem sequenceLayout (h : abi.Renumbers ρ abi') (ids : List TypeId) :
    abi'.sequenceLayout (ids.map ρ) = abi.sequenceLayout ids := by
  rw [Abi.sequenceLayout, h.fieldsOf, Shape.fieldLayouts_rename]
  rfl

/-- A type that is found has the same kind and name. -/
theorem describe (h : abi.Renumbers ρ abi') {id : TypeId} {found : TypeId × TypeNode}
    (hid : abi.lookup id = .ok found) : abi'.describe (ρ id) = abi.describe id := by
  rw [Abi.describe, Abi.describe, h.lookup, hid]
  exact TypeNode.title_rename found.2

theorem searchWithin (h : abi.Renumbers ρ abi') (hp : ∀ node, p' (node.rename ρ) = p node)
    (steps : Nat) (visited pending : List TypeId) :
    abi'.searchWithin p' steps (visited.map ρ) (pending.map ρ) =
      abi.searchWithin p steps visited pending := by
  induction steps generalizing visited pending with
  | zero => rfl
  | succ steps ih =>
    cases pending with
    | nil => rfl
    | cons next pending =>
      rw [List.map_cons, Abi.searchWithin, Abi.searchWithin, h.lookup]
      cases abi.lookup next with
      | error e => rfl
      | ok found =>
        obtain ⟨resolved, node⟩ := found
        have hrest := ih (resolved :: visited) (node.components.reverse ++ pending)
        rw [List.map_cons, List.map_append, List.map_reverse] at hrest
        simp only [Except.map, bind, Except.bind, List.mem_map_of_injective h.injective, hp,
          TypeNode.isValueless_rename, TypeNode.title_rename, TypeNode.components_rename, ih, hrest]

theorem containsNode (h : abi.Renumbers ρ abi') (hp : ∀ node, p' (node.rename ρ) = p node)
    (id : TypeId) : abi'.containsNode p' (ρ id) = abi.containsNode p id := by
  rw [Abi.containsNode, h.componentCount_eq]
  exact h.searchWithin hp _ [] [id]

theorem needsDeallocate (h : abi.Renumbers ρ abi') (id : TypeId) :
    abi'.needsDeallocate (ρ id) = abi.needsDeallocate id :=
  h.containsNode (fun node => by cases node <;> rfl) id

theorem ownsHandles (h : abi.Renumbers ρ abi') (id : TypeId) :
    abi'.ownsHandles (ρ id) = abi.ownsHandles id :=
  h.containsNode (fun node => by cases node <;> rfl) id

/-- A function type has the same signature. -/
theorem signature (h : abi.Renumbers ρ abi') (f : FunctionType) :
    abi'.signature (f.rename ρ) = (abi.signature f).map (Signature.rename ρ) := by
  simp only [Abi.signature, FunctionType.paramTypes_rename, FunctionType.results_rename,
    h.flattenAll, h.sequenceLayout, List.length_map, Abi.anyType, List.mapM_map,
    Function.comp_def, h.needsDeallocate, h.ownsHandles]
  refine Except.map_bind fun flatParams => Except.map_bind fun flatResults => ?_
  split
  all_goals
    refine Except.map_bind fun paramArea => ?_
    split
    all_goals exact Except.map_bind fun returnArea => Except.map_bind fun facts =>
      Except.map_bind fun transfer => rfl

/-- A function has the same signature. -/
theorem functionSignature (h : abi.Renumbers ρ abi') (id : TypeId) :
    abi'.functionSignature (ρ id) = (abi.functionSignature id).map (Signature.rename ρ) := by
  rw [Abi.functionSignature, Abi.functionSignature, h.lookup]
  cases abi.lookup id with
  | error e => rfl
  | ok found =>
    obtain ⟨resolved, node⟩ := found
    cases node with
    | function f => exact h.signature f
    | _ => rfl

end Abi.Renumbers

end ComponentAbi
