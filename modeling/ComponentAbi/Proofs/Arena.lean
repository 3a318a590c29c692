import ComponentAbi.Numerals
import ComponentAbi.TypeGraph
import Mathlib.Algebra.BigOperators.Fin
import Mathlib.Algebra.Order.BigOperators.Group.Finset
import Mathlib.Data.List.Nodup
import Mathlib.Data.List.Perm.Subperm

/-!
# Nodes of an arena

An arena holds exactly the nodes with an index below its size, so different nodes of it are no more
than its size (`TypeArena.length_le_size`). Adding a node changes no other
(`TypeArena.extends_alloc`). A traversal that goes on from a node only once is bounded by what the
nodes it has not come to still have ahead of them (`TypeArena.unvisited_add`).
-/

namespace ComponentAbi

namespace TypeArena

variable {a b c : TypeArena} {id : TypeId} {node : TypeNode} {ids : List TypeId}

theorem index_lt_of_get? (h : a.get? id = some node) : id.index < a.size :=
  (Array.getElem?_eq_some_iff.1 h).1

/-- Different nodes of an arena are no more than it has. -/
theorem length_le_size (hnodup : ids.Nodup) (hin : ∀ id ∈ ids, id.index < a.size) :
    ids.length ≤ a.size := by
  have hinj : Function.Injective TypeId.index := by
    rintro ⟨i⟩ ⟨j⟩ h
    exact congrArg TypeId.mk h
  have hsub : ids.map TypeId.index ⊆ List.range a.size := by
    intro i hi
    obtain ⟨id, hid, rfl⟩ := List.mem_map.1 hi
    exact List.mem_range.2 (hin id hid)
  have hle := ((hnodup.map hinj).subperm hsub).length_le
  rwa [List.length_map, List.length_range] at hle

/-! ### Growth -/

/-- All nodes of the first arena are in the second as well. -/
def Extends (a b : TypeArena) : Prop :=
  ∀ ⦃id node⦄, a.get? id = some node → b.get? id = some node

theorem Extends.refl (a : TypeArena) : a.Extends a :=
  fun _ _ h => h

theorem Extends.trans (h : a.Extends b) (h' : b.Extends c) : a.Extends c :=
  fun _ _ hnode => h' (h hnode)

theorem get?_alloc_new (a : TypeArena) (node : TypeNode) :
    (a.alloc node).2.get? (a.alloc node).1 = some node := by
  rw [get?_alloc, if_pos rfl]

theorem extends_alloc (a : TypeArena) (node : TypeNode) : a.Extends (a.alloc node).2 := by
  intro id old h
  have hne : id ≠ (a.alloc node).1 := by
    rintro rfl
    exact absurd (index_lt_of_get? h) (Nat.lt_irrefl _)
  rw [get?_alloc, if_neg hne, h]

/-! ### Traversals -/

section Unvisited

variable (a) (weight : TypeNode → Nat) (fresh : TypeId → Prop) [DecidablePred fresh]

/-- What the nodes that were not yet visited weigh together. -/
def unvisited : Nat :=
  ∑ i ∈ (Finset.range a.size).filter fun i => fresh ⟨i⟩, ((a.get? ⟨i⟩).map weight).getD 0

theorem unvisited_le : a.unvisited weight fresh ≤ (a.nodes.toList.map weight).sum := by
  refine (Finset.sum_le_sum_of_subset (Finset.filter_subset _ _)).trans (Nat.le_of_eq ?_)
  rw [Finset.sum_range, ← Fin.sum_univ_fun_getElem]
  refine Finset.sum_congr rfl fun i _ => ?_
  have hget : a.nodes[i.1]? = some (a.nodes.toList[i.1]) := Array.getElem?_eq_getElem i.isLt
  rw [get?, hget]
  rfl

variable {a fresh} {fresh' : TypeId → Prop} [DecidablePred fresh']

/-- A visit takes the weight of one node away. -/
theorem unvisited_add (hnode : a.get? id = some node) (hid : fresh id)
    (hvisit : ∀ other, fresh' other ↔ fresh other ∧ other ≠ id) :
    a.unvisited weight fresh' + weight node = a.unvisited weight fresh := by
  have hmem : id.index ∈ (Finset.range a.size).filter fun i => fresh ⟨i⟩ :=
    Finset.mem_filter.2 ⟨Finset.mem_range.2 (index_lt_of_get? hnode), hid⟩
  rw [unvisited, unvisited, ← Finset.sum_erase_add _ _ hmem]
  congr 1
  · refine Finset.sum_congr (Finset.ext fun i => ?_) fun _ _ => rfl
    have hne : (⟨i⟩ : TypeId) ≠ id ↔ i ≠ id.index :=
      ⟨fun h hi => h (congrArg TypeId.mk hi), fun h hi => h (congrArg TypeId.index hi)⟩
    rw [Finset.mem_erase, Finset.mem_filter, Finset.mem_filter, hvisit, hne]
    tauto
  · rw [hnode]
    rfl

end Unvisited

end TypeArena

end ComponentAbi
