import ComponentAbi.Proofs.Marshal.Passing
import ComponentAbi.Report
import Mathlib.Logic.Relation

/-!
# Types that occur in a type

A type occurs in another if values of that one are made of values of it, at any depth and in lists
as well, or if it is the resource of a borrowed handle in there (`Abi.Reaches`).

Where a function has a signature, all types that occur in its parameters and results can be looked
up (`Abi.resolves_of_functionSignature`), but for two of them. What is borrowed is never looked at,
and the elements of a list only are if the search for owned handles does not end at a resource
before (`Abi.signature_hides_reference`).
-/

namespace ComponentAbi

/-! ### The parts of a shape -/

namespace Shape

variable {s t : Shape} {inner : TypeId → Shape} {node : TypeNode}

/-- The shapes that the values of a shape are put together from. -/
def parts : Shape → List Shape
  | product _ fields => fields.map (·.2)
  | sum _ cases => cases.filterMap (·.2)
  | _ => []

/-- Only lists have components that are not unfolded. -/
theorem parts_ofNode (h : ∀ element, node ≠ .list element) :
    (ofNode inner node).parts = node.components.map inner := by
  cases node with
  | list element => exact absurd rfl (h element)
  | tuple elements => simp [ofNode, parts, TypeNode.components, Function.comp_def]
  | record name fields => simp [ofNode, parts, TypeNode.components, Function.comp_def]
  | variant name cases =>
    simp [ofNode, parts, TypeNode.components, List.filterMap_map, List.map_filterMap]
  | result ok err => cases ok <;> cases err <;> rfl
  | _ => rfl

theorem exists_flattenFields_iff {fields : List (String × Shape)} :
    (∃ kinds, flattenFields fields = .ok kinds) ↔
      ∀ s ∈ fields.map (·.2), ∃ kinds, s.flatten = .ok kinds := by
  induction fields with
  | nil => exact ⟨fun _ s hs => absurd hs List.not_mem_nil, fun _ => ⟨_, rfl⟩⟩
  | cons field fields ih =>
    rw [flattenFields, Except.exists_both_eq_ok, ih, List.map_cons, List.forall_mem_cons]

theorem exists_flattenCases_iff {cases : List (String × Option Shape)} :
    (∃ slots, flattenCases cases = .ok slots) ↔
      ∀ s ∈ cases.filterMap (·.2), ∃ kinds, s.flatten = .ok kinds := by
  induction cases with
  | nil => exact ⟨fun _ s hs => absurd hs List.not_mem_nil, fun _ => ⟨_, rfl⟩⟩
  | cons case cases ih =>
    obtain ⟨label, payload⟩ := case
    cases payload with
    | none => rw [flattenCases, ih, List.filterMap_cons_none rfl]
    | some s =>
      have hcons : ((label, some s) :: cases).filterMap (·.2) = s :: cases.filterMap (·.2) := rfl
      rw [flattenCases, Except.exists_both_eq_ok, ih, hcons, List.forall_mem_cons]

/-- What has core words has parts that have them. -/
theorem exists_flatten_part {kinds : List CoreType} (h : s.flatten = .ok kinds)
    (ht : t ∈ s.parts) : ∃ kinds, t.flatten = .ok kinds := by
  cases s with
  | product kind fields => exact exists_flattenFields_iff.1 ⟨_, h⟩ t ht
  | sum kind cases =>
    obtain ⟨slots, hslots, -⟩ := Except.map_eq_ok.1 h
    exact exists_flattenCases_iff.1 ⟨_, hslots⟩ t ht
  | _ => exact absurd ht List.not_mem_nil

end Shape

namespace Abi

variable {abi : Abi} {id part resolved : TypeId} {node : TypeNode} {sig : Signature}

/-! ### Reaching -/

/-- Values of the type are made of values of the part, or borrow it. -/
def HasPart (abi : Abi) (id part : TypeId) : Prop :=
  ∃ resolved node, abi.lookup id = .ok (resolved, node) ∧ part ∈ node.reported

/-- The part occurs in the type, at any depth. -/
def Reaches (abi : Abi) : TypeId → TypeId → Prop :=
  Relation.ReflTransGen abi.HasPart

/-- Wherever something is borrowed in the type, it is a resource. -/
def BorrowsResources (abi : Abi) (id : TypeId) : Prop :=
  ∀ part, abi.Reaches id part → ∀ resolved target,
    abi.lookup part = .ok (resolved, .borrow target) →
      ∃ found resource, abi.lookup target = .ok (found, .resource resource)

/-- No list occurs in the type. -/
def ListFree (abi : Abi) (id : TypeId) : Prop :=
  ∀ part, abi.Reaches id part → ∀ resolved element,
    abi.lookup part ≠ .ok (resolved, .list element)

theorem mem_components_of_reported (h : part ∈ node.reported) :
    node = .borrow part ∨ part ∈ node.components := by
  cases node with
  | borrow target => exact .inl (congrArg _ (List.mem_singleton.1 h).symm)
  | _ => exact .inr h

/-- A property of types goes over to everything that occurs in one of them, if it goes over to
components and what has it can be looked up. Nothing occurs in a resource. -/
theorem lookup_of_reaches {P : TypeId → Prop} (hborrow : abi.BorrowsResources id) (hid : P id)
    (hstep : ∀ part, abi.Reaches id part → P part → ∃ resolved node,
      abi.lookup part = .ok (resolved, node) ∧ ∀ next ∈ node.components, P next)
    (h : abi.Reaches id part) : ∃ resolved node, abi.lookup part = .ok (resolved, node) := by
  -- What is borrowed need not have the property, but it is a resource, and the way ends there.
  have hall : P part ∨ ∃ resolved r, abi.lookup part = .ok (resolved, .resource r) := by
    induction h with
    | refl => exact .inl hid
    | @tail before part hreach hpart ih =>
      obtain ⟨resolved, node, hnode, hmem⟩ := hpart
      rcases ih with hbefore | ⟨_, r, hresource⟩
      · rcases mem_components_of_reported hmem with rfl | hmem
        · exact .inr (hborrow before hreach _ _ hnode)
        · obtain ⟨_, _, hnode', hcomponents⟩ := hstep before hreach hbefore
          rw [hnode] at hnode'
          cases hnode'
          exact .inl (hcomponents part hmem)
      · rw [hnode] at hresource
        cases hresource
        cases hmem
  rcases hall with hpart | ⟨resolved, r, hresource⟩
  · obtain ⟨resolved, node, hnode, -⟩ := hstep part h hpart
    exact ⟨resolved, node, hnode⟩
  · exact ⟨resolved, _, hresource⟩

/-- A search without a find has looked everything up. -/
theorem resolves_of_not_ownsHandles (hborrow : abi.BorrowsResources id)
    (h : abi.ownsHandles id = .ok false) (hpart : abi.Reaches id part) :
    ∃ resolved node, abi.lookup part = .ok (resolved, node) := by
  obtain ⟨nodes, -, hid, hclosed⟩ := closed_of_searchWithin h
  refine lookup_of_reaches (P := abi.Within nodes) hborrow (hid id (List.mem_singleton_self id))
    (fun part _ hwithin => ?_) hpart
  obtain ⟨resolved, node, hnode, hresolved⟩ := hwithin
  exact ⟨resolved, node, hnode,
    (hclosed resolved hresolved List.not_mem_nil node (get?_of_lookup hnode)).2⟩

/-- Flattening looks up everything outside of lists. -/
theorem resolves_of_listFree {kinds : List CoreType} (hborrow : abi.BorrowsResources id)
    (hlist : abi.ListFree id) (h : abi.flatten id = .ok kinds) (hpart : abi.Reaches id part) :
    ∃ resolved node, abi.lookup part = .ok (resolved, node) := by
  -- Whatever occurs outside of lists was unfolded on some path, and has core words there.
  refine lookup_of_reaches
    (P := fun part => ∃ d path kinds, (abi.unfold d path part).flatten = .ok kinds) hborrow
    ⟨_, _, _, h⟩ (fun part hreach hflat => ?_) hpart
  obtain ⟨d, path, kinds, hflat⟩ := hflat
  cases d with
  | zero => cases hflat
  | succ d =>
    rw [unfold] at hflat
    cases hnode : abi.lookup part with
    | error cause =>
      rw [hnode] at hflat
      cases hflat
    | ok found =>
      obtain ⟨resolved, node⟩ := found
      rw [hnode] at hflat
      dsimp only at hflat
      split at hflat
      · cases hflat
      · refine ⟨resolved, node, rfl, fun next hnext => ?_⟩
        have hparts : (Shape.ofNode (abi.unfold d (resolved :: path)) node).parts = _ :=
          Shape.parts_ofNode fun element hlisted =>
            hlist part hreach resolved element (hlisted ▸ hnode)
        obtain ⟨kinds, hnext⟩ := Shape.exists_flatten_part hflat
          (hparts ▸ List.mem_map_of_mem hnext)
        exact ⟨d, _, kinds, hnext⟩

/-! ### Signatures -/

/-- What a signature looks at, for each type: its core words, and whether it owns handles. -/
theorem looks_of_signature {f : FunctionType} (h : abi.signature f = .ok sig) :
    ∀ id ∈ f.paramTypes ++ f.results,
      (∃ kinds, abi.flatten id = .ok kinds) ∧ ∃ owns, abi.ownsHandles id = .ok owns := by
  have hflat {ids : List TypeId} {kinds : List CoreType} (h : abi.flattenAll ids = .ok kinds) :
      ∀ id ∈ ids, ∃ kinds, abi.flatten id = .ok kinds := fun id hid =>
    Shape.exists_flattenFields_iff.1 ⟨_, h⟩ (abi.shape id)
      (List.mem_map.2 ⟨_, List.mem_map_of_mem hid, rfl⟩)
  obtain ⟨flatParams, hparams, h⟩ := Except.bind_eq_ok.1 h
  obtain ⟨flatResults, hresults, h⟩ := Except.bind_eq_ok.1 h
  simp only [ite_bind] at h
  obtain ⟨paramArea, -, h⟩ := Except.bind_eq_ok.1 h
  obtain ⟨returnArea, -, h⟩ := Except.bind_eq_ok.1 h
  obtain ⟨facts, hfacts, h⟩ := Except.bind_eq_ok.1 h
  obtain ⟨transfer, htransfer, -⟩ := Except.bind_eq_ok.1 h
  rw [List.forall_mem_append]
  refine ⟨fun id hid => ⟨hflat hparams id hid, ?_⟩, fun id hid => ⟨hflat hresults id hid, ?_⟩⟩
  · obtain ⟨owns, howns, -⟩ := Except.map_eq_ok.1 htransfer
    exact Except.eq_ok_of_mem_mapM howns hid
  · obtain ⟨fact, hfact⟩ := Except.eq_ok_of_mem_mapM hfacts hid
    obtain ⟨_, -, hfact⟩ := Except.bind_eq_ok.1 hfact
    obtain ⟨owns, howns, -⟩ := Except.bind_eq_ok.1 hfact
    exact ⟨owns, howns⟩

/-- Where a function has a signature, everything that occurs in its types can be looked up, if only
resources are borrowed and there are no lists in the types that own handles. -/
theorem resolves_of_functionSignature {func found : TypeId} {f : FunctionType}
    (hfunc : abi.lookup func = .ok (found, .function f))
    (hsig : abi.functionSignature func = .ok sig)
    (hborrow : ∀ id ∈ f.paramTypes ++ f.results, abi.BorrowsResources id)
    (hlist : ∀ id ∈ f.paramTypes ++ f.results, abi.ownsHandles id = .ok true → abi.ListFree id) :
    ∀ id ∈ f.paramTypes ++ f.results, ∀ part, abi.Reaches id part →
      ∃ resolved node, abi.lookup part = .ok (resolved, node) ∧ node.isReference = false := by
  intro id hid part hpart
  rw [functionSignature, hfunc] at hsig
  obtain ⟨⟨kinds, hflat⟩, owns, howns⟩ := looks_of_signature hsig id hid
  obtain ⟨resolved, node, hnode⟩ : ∃ resolved node, abi.lookup part = .ok (resolved, node) := by
    cases owns with
    | false => exact resolves_of_not_ownsHandles (hborrow id hid) howns hpart
    | true => exact resolves_of_listFree (hborrow id hid) (hlist id hid howns) hflat hpart
  exact ⟨resolved, node, hnode, isReference_of_lookup hnode⟩

/-- The package of the examples. -/
def geo : PackageRef :=
  { name := { namespaces := ["ns"], path := ["geo"] } }

/-- A function on a borrowed file, a file, and a list of records that is given by name. -/
def shelf : Abi where
  arena := ⟨#[.reference (.named geo "shelf"), .string,
    .record { name := "book" } [("title", ⟨1⟩)], .list ⟨2⟩,
    .resource { name := { name := "file" } }, .borrow ⟨4⟩,
    .function { params := [("from", ⟨5⟩), ("to", ⟨4⟩), ("books", ⟨0⟩)], results := [] }]⟩
  store? := some (PackageStore.insert {} geo { definitions := { types := ⟨[("shelf", ⟨3⟩)]⟩ } })

theorem resolves_of_functionSignature_shelf : (∃ sig, shelf.functionSignature ⟨6⟩ = .ok sig) ∧
    shelf.Reaches ⟨0⟩ ⟨1⟩ ∧
    ∃ resolved node, shelf.lookup ⟨1⟩ = .ok (resolved, node) ∧ node.isReference = false := by
  have hsig : ∃ sig, shelf.functionSignature ⟨6⟩ = .ok sig := ⟨_, rfl⟩
  have htitle : shelf.Reaches ⟨0⟩ ⟨1⟩ :=
    .head ⟨⟨3⟩, .list ⟨2⟩, rfl, List.mem_cons_self⟩ (.single ⟨⟨2⟩, _, rfl, List.mem_cons_self⟩)
  have hborrow (id : TypeId) : shelf.BorrowsResources id := by
    intro part _ resolved target h
    have hmem := Array.mem_of_getElem? (get?_of_lookup h)
    obtain rfl : target = ⟨4⟩ := by simpa [shelf] using hmem
    exact ⟨_, _, rfl⟩
  have hfile : shelf.ListFree ⟨4⟩ := by
    intro part hpart resolved element h
    rcases hpart.cases_head with rfl | ⟨next, ⟨_, _, hnode, hnext⟩, -⟩
    · cases h
    · cases hnode
      cases hnext
  obtain ⟨sig, hsome⟩ := hsig
  have hfunc : shelf.lookup ⟨6⟩ = .ok (⟨6⟩, .function
      { params := [("from", ⟨5⟩), ("to", ⟨4⟩), ("books", ⟨0⟩)], results := [] }) := rfl
  refine ⟨⟨sig, hsome⟩, htitle, ?_⟩
  refine resolves_of_functionSignature hfunc hsome (fun id _ => hborrow id) ?_ ⟨0⟩ (by decide)
    ⟨1⟩ htitle
  refine List.forall_mem_cons.2 ⟨nofun, List.forall_mem_cons.2 ⟨fun _ => hfile, ?_⟩⟩
  exact List.forall_mem_singleton.2 nofun

/-- A function on a list of a type without definition, next to a resource, and one that borrows such
a type. -/
def hiddenName : Abi where
  arena := ⟨#[.reference (.named geo "missing"), .list ⟨0⟩,
    .resource { name := { name := "file" } }, .tuple [⟨1⟩, ⟨2⟩],
    .function { params := [("p", ⟨3⟩)], results := [] }, .borrow ⟨0⟩,
    .function { params := [("p", ⟨5⟩)], results := [] }]⟩
  store? := some {}

/-- The search for handles finds the resource before it gets to the list, and what is borrowed is
not looked at, so both functions have a signature. -/
theorem signature_hides_reference :
    (∃ sig, hiddenName.functionSignature ⟨4⟩ = .ok sig ∧ sig.paramTypes = [⟨3⟩]) ∧
      (∃ sig, hiddenName.functionSignature ⟨6⟩ = .ok sig ∧ sig.paramTypes = [⟨5⟩]) ∧
      hiddenName.Reaches ⟨3⟩ ⟨0⟩ ∧ hiddenName.Reaches ⟨5⟩ ⟨0⟩ ∧
      hiddenName.lookup ⟨0⟩ = .error (.unresolved
        (.unresolvedType "missing" "ns:geo" ["Unknown package 'ns:geo'"])) :=
  ⟨⟨_, rfl, rfl⟩, ⟨_, rfl, rfl⟩,
    .head ⟨⟨3⟩, _, rfl, List.mem_cons_self⟩ (.single ⟨⟨1⟩, _, rfl, List.mem_cons_self⟩),
    .single ⟨⟨5⟩, _, rfl, List.mem_cons_self⟩, rfl⟩

end Abi

end ComponentAbi
