import ComponentAbi.Proofs.Shape.Placement
import ComponentAbi.Proofs.Shape.Unfold
import ComponentAbi.TypeSearch

/-!
# Searches that find nothing

A search of a type that ends without a find has visited a set of nodes that is closed under taking
components (`Abi.closed_of_searchWithin`). So a type in which no string and no list is found owns no
memory (`Abi.not_ownsMemory_of_needsDeallocate`).
-/

namespace ComponentAbi

namespace Abi

variable {abi : Abi} {p : TypeNode → Bool} {visited pending : List TypeId} {id : TypeId}

/-- The type stands for one of the nodes. -/
def Within (abi : Abi) (nodes : TypeId → Prop) (id : TypeId) : Prop :=
  ∃ resolved node, abi.lookup id = .ok (resolved, node) ∧ nodes resolved

/-- None of the nodes is looked for, and their components are among them. -/
def Barren (abi : Abi) (p : TypeNode → Bool) (nodes : TypeId → Prop) (resolved : TypeId) : Prop :=
  ∀ node, abi.arena.get? resolved = some node →
    p node = false ∧ ∀ part ∈ node.components, abi.Within nodes part

/-- The nodes that a search without a find has visited. -/
theorem closed_of_searchWithin {steps : Nat}
    (h : abi.searchWithin p steps visited pending = .ok false) :
    ∃ nodes : TypeId → Prop, (∀ r ∈ visited, nodes r) ∧ (∀ id ∈ pending, abi.Within nodes id) ∧
      ∀ r, nodes r → r ∉ visited → abi.Barren p nodes r := by
  induction steps generalizing visited pending with
  | zero => cases h
  | succ steps ih =>
    cases pending with
    | nil => exact ⟨(· ∈ visited), fun _ h => h, fun _ h => absurd h List.not_mem_nil,
        fun _ h hn => absurd h hn⟩
    | cons next pending =>
      obtain ⟨⟨resolved, node⟩, hnode, h⟩ := Except.bind_eq_ok.1 h
      dsimp only at h
      split at h
      · rename_i hvisited
        obtain ⟨nodes, hsub, hpending, hclosed⟩ := ih h
        exact ⟨nodes, hsub, List.forall_mem_cons.2 ⟨⟨_, _, hnode, hsub _ hvisited⟩, hpending⟩,
          hclosed⟩
      · split at h
        · cases h
        · split at h
          · cases h
          · rename_i hp _
            obtain ⟨nodes, hsub, hpending, hclosed⟩ := ih h
            obtain ⟨hresolved, hsub⟩ := List.forall_mem_cons.1 hsub
            obtain ⟨hparts, hpending⟩ := List.forall_mem_append.1 hpending
            refine ⟨nodes, hsub, List.forall_mem_cons.2 ⟨⟨_, _, hnode, hresolved⟩, hpending⟩,
              fun r hr hnew => ?_⟩
            by_cases he : r = resolved
            · intro node' hnode'
              rw [he, get?_of_lookup hnode] at hnode'
              cases hnode'
              exact ⟨Bool.eq_false_iff.2 hp, fun part hm => hparts part (List.mem_reverse.2 hm)⟩
            · exact hclosed r hr fun hm => (List.mem_cons.1 hm).elim he hnew

theorem not_ownsMemory_ofNode {inner : TypeId → Shape} {node : TypeNode}
    (hnode : (match node with | .string | .list _ => true | _ => false) = false)
    (h : ∀ part ∈ node.components, (inner part).ownsMemory = false) :
    (Shape.ofNode inner node).ownsMemory = false := by
  have hcases (cases : List (String × Option TypeId))
      (h : ∀ part ∈ cases.filterMap (·.2), (inner part).ownsMemory = false) :
      Shape.casesOwnMemory (cases.map fun case => (case.1, case.2.map inner)) = false := by
    refine Shape.casesOwnMemory_eq_false.2 fun label s hm => ?_
    obtain ⟨⟨label, payload⟩, hcase, he⟩ := List.mem_map.1 hm
    cases payload with
    | none => cases he
    | some part =>
      cases he
      exact h part (List.mem_filterMap.2 ⟨_, hcase, rfl⟩)
  cases node with
  | string | list => cases hnode
  | tuple elements =>
    refine Shape.fieldsOwnMemory_eq_false.2 fun field hm => ?_
    obtain ⟨part, hpart, rfl⟩ := List.mem_map.1 hm
    exact h part hpart
  | record name fields =>
    refine Shape.fieldsOwnMemory_eq_false.2 fun field hm => ?_
    obtain ⟨part, hpart, rfl⟩ := List.mem_map.1 hm
    exact h part.2 (List.mem_map_of_mem hpart)
  | variant name cases => exact hcases cases h
  | option payload => exact hcases [("none", none), ("some", some payload)] h
  | result ok err =>
    refine hcases [("ok", ok), ("error", err)] fun part hm => h part ?_
    cases ok <;> cases err <;> exact hm
  | _ => rfl

/-- A type in which neither a string nor a list is found owns no memory. -/
theorem not_ownsMemory_of_needsDeallocate (h : abi.needsDeallocate id = .ok false) :
    (abi.shape id).ownsMemory = false := by
  obtain ⟨nodes, -, hid, hclosed⟩ := closed_of_searchWithin h
  -- However deeply the type is unfolded, it only has parts that were visited.
  have hunfold (d : Nat) : ∀ path id, abi.Within nodes id →
      (abi.unfold d path id).ownsMemory = false := by
    induction d with
    | zero => exact fun _ _ _ => rfl
    | succ d ih =>
      rintro path id ⟨resolved, node, hnode, hresolved⟩
      obtain ⟨hbarren, hparts⟩ := hclosed resolved hresolved List.not_mem_nil node
        (get?_of_lookup hnode)
      rw [unfold, hnode]
      dsimp only
      split
      · rfl
      · exact not_ownsMemory_ofNode hbarren fun part hm => ih _ part (hparts part hm)
  exact hunfold _ _ _ (hid id (List.mem_singleton_self id))

end Abi

end ComponentAbi
