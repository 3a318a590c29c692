import ComponentAbi.Proofs.Arena
import ComponentAbi.Proofs.Marshal.Nesting
import ComponentAbi.Proofs.Plan.Passable
import ComponentAbi.Proofs.Report.Reach
import ComponentAbi.Proofs.Shape.WordsAndBytes

/-!
# Reports that are cut short

A report lists every type that occurs in a function with a signature. Listing them never runs out of
steps, since the nodes that are not listed yet bound what is still to come
(`Report.exists_run_of_collectWithin`). So if what occurs in these functions has values, a report
fails only where a name does not resolve, and functions without a signature are listed with the
reason (`Report.ofFunctions_isolates`).

That a function has a signature is not enough: its lists may have elements that have no values, and
then there is no report at all (`Report.ofFunctions_stops_at_stream`).
-/

namespace ComponentAbi

/-! ### Types without words -/

namespace Shape

variable {e : AbiError} {inner : TypeId → Shape} {node : TypeNode}

theorem exists_of_flattenFields {fields : List (String × Shape)}
    (h : flattenFields fields = .error e) : ∃ s ∈ fields.map (·.2), s.flatten = .error e := by
  induction fields with
  | nil => cases h
  | cons field fields ih =>
    rcases Except.both_eq_error.1 h with hfield | ⟨-, hrest⟩
    · exact ⟨field.2, List.mem_cons_self, hfield⟩
    · obtain ⟨s, hs, h⟩ := ih hrest
      exact ⟨s, List.mem_cons_of_mem _ hs, h⟩

theorem exists_of_flattenCases {cases : List (String × Option Shape)}
    (h : flattenCases cases = .error e) : ∃ s ∈ cases.filterMap (·.2), s.flatten = .error e := by
  induction cases with
  | nil => cases h
  | cons case cases ih =>
    obtain ⟨label, payload⟩ := case
    cases payload with
    | none => exact ih h
    | some payload =>
      rcases Except.both_eq_error.1 h with hpayload | ⟨-, hrest⟩
      · exact ⟨payload, List.mem_cons_self, hpayload⟩
      · obtain ⟨s, hs, h⟩ := ih hrest
        exact ⟨s, List.mem_cons_of_mem _ hs, h⟩

/-- If a node has values but no core words, one of its components has none. -/
theorem exists_component_of_flatten (hv : node.HasValues)
    (h : (ofNode inner node).flatten = .error e) :
    ∃ part ∈ node.components, (inner part).flatten = .error e := by
  have hpart (hlist : ∀ element, node ≠ .list element)
      (h : ∃ s ∈ (ofNode inner node).parts, s.flatten = .error e) :
      ∃ part ∈ node.components, (inner part).flatten = .error e := by
    obtain ⟨s, hs, h⟩ := h
    rw [parts_ofNode hlist] at hs
    obtain ⟨part, hpart, rfl⟩ := List.mem_map.1 hs
    exact ⟨part, hpart, h⟩
  cases node with
  | tuple | record => exact hpart nofun (exists_of_flattenFields h)
  | option | result | variant =>
    exact hpart nofun (exists_of_flattenCases (Except.map_eq_error.1 h))
  | flags name labels =>
    have hcheck : (Leaf.flags name.toText labels).check = .ok () := if_neg (Nat.not_lt.2 hv)
    rw [ofNode, flatten, hcheck] at h
    cases h
  | scalar | string | list | enum | resource | borrow => cases h
  | function | interface | world | stream | future | reference => exact hv.elim

end Shape

namespace Abi

variable {abi : Abi} {id part resolved : TypeId} {node : TypeNode} {e : AbiError}

theorem mem_reported_of_components (h : part ∈ node.components) : part ∈ node.reported := by
  cases node with
  | borrow => cases h
  | _ => exact h

/-- If a type has no core words, it is part of itself, or a type that occurs in it has no values or
cannot be looked up. -/
theorem exists_of_flatten_unfold {d : Nat} {path : List TypeId}
    (h : (abi.unfold d path id).flatten = .error e) :
    e = .unboundedNesting ∨ ∃ part, abi.Reaches id part ∧ (abi.lookup part = .error e ∨
      ∃ resolved node, abi.lookup part = .ok (resolved, node) ∧ ¬node.HasValues) := by
  -- If a node has values, the error comes from one of its components, one level further down.
  induction d generalizing path id with
  | zero => exact .inl (Except.error.inj h).symm
  | succ d ih =>
    rw [unfold] at h
    cases hnode : abi.lookup id with
    | error cause =>
      rw [hnode] at h
      cases h
      exact .inr ⟨id, .refl, .inl hnode⟩
    | ok found =>
      obtain ⟨resolved, node⟩ := found
      rw [hnode] at h
      dsimp only at h
      split at h
      · exact .inl (Except.error.inj h).symm
      · by_cases hv : node.HasValues
        · obtain ⟨next, hnext, h⟩ := Shape.exists_component_of_flatten hv h
          have hpart : abi.HasPart id next :=
            ⟨resolved, node, hnode, mem_reported_of_components hnext⟩
          rcases ih h with he | ⟨part, hreach, h⟩
          · exact .inl he
          · exact .inr ⟨part, .head hpart hreach, h⟩
        · exact .inr ⟨id, .refl, .inr ⟨resolved, node, hnode, hv⟩⟩

/-- There is nothing in the type that a report could fail on, but a name that does not resolve. -/
structure Reportable (abi : Abi) (id : TypeId) : Prop where
  /-- If the type cannot be looked up, it is because a name does not resolve. -/
  named : ∀ cause, abi.lookup id = .error cause → ∃ c, cause = .unresolved c
  /-- The type has values. -/
  valued : ∀ resolved node, abi.lookup id = .ok (resolved, node) → node.HasValues
  /-- The type is not part of itself without a list in between. -/
  nested : (abi.shape id).wellNested = true

/-- All types that occur in the type are reportable. -/
def AllReportable (abi : Abi) (id : TypeId) : Prop :=
  ∀ part, abi.Reaches id part → abi.Reportable part

theorem AllReportable.of_part (h : abi.AllReportable id) (hpart : abi.HasPart id part) :
    abi.AllReportable part :=
  fun _ hreach => h _ (.head hpart hreach)

/-- A type is reportable if it has values, is not part of itself, and has reportable parts. -/
theorem AllReportable.of_parts (hnode : abi.lookup id = .ok (resolved, node)) (hv : node.HasValues)
    (hnested : (abi.shape id).wellNested = true)
    (hparts : ∀ part ∈ node.reported, abi.AllReportable part) : abi.AllReportable id := by
  intro part hreach
  rcases hreach.cases_head with rfl | ⟨next, ⟨found, other, hother, hnext⟩, hreach⟩
  · refine ⟨fun cause hcause => ?_, fun found other hother => ?_, hnested⟩
    · rw [hnode] at hcause
      cases hcause
    · rw [hnode] at hother
      cases hother
      exact hv
  · rw [hnode] at hother
    cases hother
    exact hparts next hnext part hreach

/-- Some type that occurs in `id` cannot be looked up, for the reason `e`. -/
def Misses (abi : Abi) (id : TypeId) (e : AbiError) : Prop :=
  ∃ part, abi.Reaches id part ∧ abi.lookup part = .error e

theorem Misses.of_part (hpart : abi.HasPart id part) (h : abi.Misses part e) : abi.Misses id e :=
  let ⟨missing, hreach, hmissing⟩ := h
  ⟨missing, .head hpart hreach, hmissing⟩

theorem AllReportable.unresolved (h : abi.AllReportable id) (he : abi.Misses id e) :
    ∃ c, e = .unresolved c :=
  let ⟨part, hreach, hpart⟩ := he
  (h part hreach).named e hpart

theorem AllReportable.misses_of_flatten (h : abi.AllReportable id)
    (he : abi.flatten id = .error e) : abi.Misses id e := by
  rcases exists_of_flatten_unfold he with rfl | ⟨part, hreach, hpart | ⟨resolved, node, hnode, hv⟩⟩
  · exact absurd he (Shape.answered_of_wellNested _ (h id .refl).nested).2
  · exact ⟨part, hreach, hpart⟩
  · exact absurd ((h part hreach).valued resolved node hnode) hv

theorem AllReportable.misses_of_layout (h : abi.AllReportable id)
    (he : abi.layout id = .error e) : abi.Misses id e :=
  h.misses_of_flatten ((Shape.layout_eq_error_iff _).1 he)

theorem AllReportable.misses_of_fieldOffsets {ids : List TypeId}
    (h : ∀ id ∈ ids, abi.AllReportable id) (he : abi.fieldOffsets ids = .error e) :
    ∃ id ∈ ids, abi.Misses id e := by
  have he := Except.map_eq_error.1 he
  obtain ⟨s, hs, he⟩ := Shape.exists_of_flattenFields ((Shape.fieldLayouts_eq_error_iff _).1 he)
  obtain ⟨field, hfield, rfl⟩ := List.mem_map.1 hs
  obtain ⟨id, hid, rfl⟩ := List.mem_map.1 hfield
  exact ⟨id, hid, (h id hid).misses_of_flatten he⟩

theorem AllReportable.misses_of_sumLayout {kind : SumKind}
    {cases : List (String × Option Shape)} (h : abi.AllReportable id)
    (hshape : abi.shape id = .sum kind cases) (he : abi.sumLayout id = .error e) :
    abi.Misses id e := by
  rw [sumLayout, hshape] at he
  refine h.misses_of_layout ?_
  rw [Abi.layout, hshape, Shape.layout]
  exact Except.map_eq_error.2 (Except.map_eq_error.1 he)

/-- The only reason why such a type has no report is that a type in it cannot be looked up. -/
theorem AllReportable.misses_of_report (h : abi.AllReportable id)
    (he : TypeReport.of abi id = .error e) : abi.Misses id e := by
  rcases Except.bind_eq_error.1 he with he | ⟨⟨resolved, node⟩, hnode, he⟩
  · exact ⟨id, .refl, he⟩
  rcases Except.bind_eq_error.1 he with he | ⟨layout, hl, he⟩
  · exact h.misses_of_layout he
  obtain ⟨inner, hshape⟩ := exists_shape_of_lookup hnode
  have hpart (part : TypeId) (hpart : part ∈ node.reported) : abi.HasPart id part :=
    ⟨resolved, node, hnode, hpart⟩
  have hflat {f : List CoreType → TypeReport}
      (he : (abi.flatten id >>= fun flat => pure (f flat)) = .error e) : abi.Misses id e := by
    rcases Except.bind_eq_error.1 he with he | ⟨_, -, he⟩
    · exact h.misses_of_flatten he
    · cases he
  cases node with
  | record | tuple =>
    rcases Except.bind_eq_error.1 he with he | ⟨_, -, he⟩
    · obtain ⟨part, hmem, hmisses⟩ := AllReportable.misses_of_fieldOffsets
        (fun part hmem => h.of_part (hpart part hmem)) (Except.map_eq_error.1 he)
      exact .of_part (hpart part hmem) hmisses
    · exact hflat he
  | option | result | variant =>
    -- There are no offsets of fields, which come first.
    obtain ⟨_, -, he⟩ := (Except.bind_eq_error.1 he).resolve_left nofun
    rcases Except.bind_eq_error.1 he with he | ⟨_, -, he⟩
    · exact h.misses_of_sumLayout hshape (Except.map_eq_error.1 he)
    · exact hflat he
  | _ => exact hflat he

/-- What a reportable type stands for is reportable. -/
theorem AllReportable.of_lookup (h : abi.AllReportable id)
    (hnode : abi.lookup id = .ok (resolved, node)) : abi.AllReportable resolved := by
  have hsame : abi.lookup resolved = abi.lookup id := (lookup_resolved hnode).trans hnode.symm
  intro part hreach
  rcases hreach.cases_head with rfl | ⟨next, ⟨found, other, hother, hnext⟩, hreach⟩
  · have hid := h id .refl
    refine ⟨fun cause hcause => hid.named cause (hsame ▸ hcause),
      fun found other hother => hid.valued found other (hsame ▸ hother), ?_⟩
    rw [shape, unfold, hsame]
    exact hid.nested
  · exact h part (.head ⟨found, other, hsame ▸ hother, hnext⟩ hreach)

end Abi

/-! ### Collecting -/

namespace Report

variable {abi : Abi} {types : List (TypeId × TypeReport)}
  {pending : List TypeId} {id resolved : TypeId} {node : TypeNode} {e : AbiError}

/-- A type that is added is found, and all others are found as before. -/
theorem lookup_insertType (report : TypeReport) (h : types.lookup id = none) (other : TypeId) :
    (insertType id report types).lookup other =
      if other = id then some report else types.lookup other := by
  induction types with
  | nil =>
    rw [insertType, List.lookup_cons]
    by_cases he : other = id <;> simp [he, beq_eq_false_iff_ne.2]
  | cons first rest ih =>
    obtain ⟨key, old⟩ := first
    have hkey : (id == key) = false := by
      cases hkey : id == key with
      | false => rfl
      | true => rw [List.lookup_cons, hkey] at h; cases h
    rw [List.lookup_cons, hkey] at h
    have hne : key ≠ id := fun he => by simp [he] at hkey
    rw [insertType]
    split
    · rw [List.lookup_cons]
      by_cases he : other = id <;> simp [he, beq_eq_false_iff_ne.2]
    · rw [List.lookup_cons, ih h, List.lookup_cons]
      by_cases he : other = key
      · simp [he, hne]
      · simp [beq_eq_false_iff_ne.2 he]

/-- The number of types that the nodes which are not yet listed go on with. -/
def uncollected (abi : Abi) (types : List (TypeId × TypeReport)) : Nat :=
  ∑ i ∈ (Finset.range abi.arena.size).filter fun i => types.lookup ⟨i⟩ = none,
    ((abi.arena.get? ⟨i⟩).map (·.reported.length)).getD 0

theorem uncollected_le (abi : Abi) (types : List (TypeId × TypeReport)) :
    uncollected abi types ≤ (abi.arena.nodes.toList.map fun node => node.reported.length).sum :=
  abi.arena.unvisited_le (fun node => node.reported.length) fun id => types.lookup id = none

theorem uncollected_insertType (report : TypeReport) (hnode : abi.arena.get? resolved = some node)
    (h : types.lookup resolved = none) :
    uncollected abi (insertType resolved report types) + node.reported.length =
      uncollected abi types := by
  have hvisit (other : TypeId) : (insertType resolved report types).lookup other = none ↔
      types.lookup other = none ∧ other ≠ resolved := by
    rw [lookup_insertType report h]
    split <;> simp_all
  exact TypeArena.unvisited_add (fun node => node.reported.length) hnode h hvisit

/-- The types listed so far, and the pending ones. -/
structure Progress where
  /-- The listed types with their reports. -/
  types : List (TypeId × TypeReport)
  /-- The types that are to be looked at. -/
  pending : List TypeId

/-- One step of collecting takes the first of the pending types. -/
inductive Step (abi : Abi) : Progress → Progress → Prop where
  /-- What the type stands for is already listed. -/
  | known {types : List (TypeId × TypeReport)} {pending : List TypeId} {next resolved : TypeId}
      {node : TypeNode} : abi.lookup next = .ok (resolved, node) → (types.lookup resolved).isSome →
      Step abi ⟨types, next :: pending⟩ ⟨types, pending⟩
  /-- What the type stands for is listed, and its parts are pending. -/
  | added {types : List (TypeId × TypeReport)} {pending : List TypeId} {next resolved : TypeId}
      {node : TypeNode} {report : TypeReport} : abi.lookup next = .ok (resolved, node) →
      types.lookup resolved = none → TypeReport.of abi resolved = .ok report →
      Step abi ⟨types, next :: pending⟩
        ⟨insertType resolved report types, node.reported.reverse ++ pending⟩

/-- Collecting goes on from one of the states to the other. -/
def Run (abi : Abi) : Progress → Progress → Prop :=
  Relation.ReflTransGen (Step abi)

/-- The type has no place in a list of types: it cannot be looked up, or what it stands for has no
report. -/
def Unlistable (abi : Abi) (id : TypeId) (e : AbiError) : Prop :=
  abi.lookup id = .error e ∨
    ∃ resolved node, abi.lookup id = .ok (resolved, node) ∧ TypeReport.of abi resolved = .error e

/-- If collecting succeeds, it went on until nothing was pending. -/
theorem run_of_collectWithin {steps : Nat} {types' : List (TypeId × TypeReport)}
    (h : collectWithin abi steps types pending = .ok types') :
    Run abi ⟨types, pending⟩ ⟨types', []⟩ := by
  induction steps generalizing types pending with
  | zero => cases h
  | succ steps ih =>
    cases pending with
    | nil =>
      cases h
      exact .refl
    | cons next pending =>
      obtain ⟨⟨resolved, node⟩, hnode, h⟩ := Except.bind_eq_ok.1 h
      dsimp only at h
      split at h
      · rename_i hknown
        exact .head (.known hnode hknown) (ih h)
      · rename_i hnew
        obtain ⟨report, hreport, h⟩ := Except.bind_eq_ok.1 h
        exact .head (.added hnode (Option.not_isSome_iff_eq_none.1 hnew) hreport) (ih h)

/-- Collecting does not run out of steps: if it fails, it came to a type that cannot be listed. -/
theorem exists_run_of_collectWithin {steps : Nat}
    (hsteps : pending.length + uncollected abi types < steps)
    (h : collectWithin abi steps types pending = .error e) :
    ∃ types' next pending', Run abi ⟨types, pending⟩ ⟨types', next :: pending'⟩ ∧
      Unlistable abi next e := by
  -- Every step takes a type off the pending ones. A node whose parts it adds is listed from then
  -- on, so that its parts count no more.
  induction steps generalizing types pending with
  | zero => cases hsteps
  | succ steps ih =>
    cases pending with
    | nil => cases h
    | cons next pending =>
      rw [List.length_cons] at hsteps
      rcases Except.bind_eq_error.1 h with h | ⟨⟨resolved, node⟩, hnode, h⟩
      · exact ⟨types, next, pending, .refl, .inl h⟩
      dsimp only at h
      split at h
      · rename_i hknown
        obtain ⟨types', last, pending', hrun, hlast⟩ := ih (by omega) h
        exact ⟨types', last, pending', .head (.known hnode hknown) hrun, hlast⟩
      · rename_i hnew
        have hnew := Option.not_isSome_iff_eq_none.1 hnew
        rcases Except.bind_eq_error.1 h with h | ⟨report, hreport, h⟩
        · exact ⟨types, next, pending, .refl, .inr ⟨resolved, node, hnode, h⟩⟩
        have hparts := uncollected_insertType report (Abi.get?_of_lookup hnode) hnew
        have hlength : (node.reported.reverse ++ pending).length + uncollected abi
            (insertType resolved report types) < steps := by
          rw [List.length_append, List.length_reverse]
          omega
        obtain ⟨types', last, pending', hrun, hlast⟩ := ih hlength h
        exact ⟨types', last, pending', .head (.added hnode hnew hreport) hrun, hlast⟩

theorem exists_run_of_collect (h : collect abi types id = .error e) :
    ∃ types' next pending', Run abi ⟨types, [id]⟩ ⟨types', next :: pending'⟩ ∧
      Unlistable abi next e := by
  refine exists_run_of_collectWithin ?_ h
  have := uncollected_le abi types
  rw [List.length_singleton]
  omega

variable {s s' : Progress}

/-- What goes over from types to their parts holds of everything that is ever pending. -/
theorem forall_pending_of_run {P : TypeId → Prop}
    (hP : ∀ id part, P id → abi.HasPart id part → P part) (h : Run abi s s')
    (hs : ∀ id ∈ s.pending, P id) : ∀ id ∈ s'.pending, P id := by
  induction h with
  | refl => exact hs
  | tail _ hstep ih =>
    cases hstep with
    | known => exact (List.forall_mem_cons.1 ih).2
    | added hnode =>
      obtain ⟨hnext, hpending⟩ := List.forall_mem_cons.1 ih
      refine List.forall_mem_append.2 ⟨fun part hpart => ?_, hpending⟩
      exact hP _ part hnext ⟨_, _, hnode, List.mem_reverse.1 hpart⟩

theorem unresolved_of_collect (hid : abi.AllReportable id)
    (h : collect abi types id = .error e) : ∃ c, e = .unresolved c := by
  obtain ⟨types', next, pending', hrun, hnext⟩ := exists_run_of_collect h
  have hall : abi.AllReportable next :=
    forall_pending_of_run (fun _ _ => Abi.AllReportable.of_part) hrun
      (List.forall_mem_singleton.2 hid) next List.mem_cons_self
  rcases hnext with hnext | ⟨resolved, node, hnode, hreport⟩
  · exact hall.unresolved ⟨next, .refl, hnext⟩
  · have hresolved := hall.of_lookup hnode
    exact hresolved.unresolved (hresolved.misses_of_report hreport)

/-! ### Reporting functions -/

variable {r r' : Report} {function : WorldFunction} {functions : List WorldFunction}
  {failure : Failure}

/-- The function and its answer. -/
def entry (abi : Abi) (function : WorldFunction) : FunctionReport :=
  { function, signature := abi.functionSignature function.func }

theorem functions_of_addFunction (h : addFunction abi r function = .ok r') :
    r'.functions = r.functions ++ [entry abi function] := by
  rw [entry]
  rw [addFunction] at h
  split at h
  · cases h
  · rename_i hsig
    cases h
    rw [hsig]
  · rename_i hsig
    obtain ⟨types, -, h⟩ := Except.bind_eq_ok.1 h
    cases h
    rw [hsig]

theorem functions_of_foldlM (h : functions.foldlM (addFunction abi) r = .ok r') :
    r'.functions = r.functions ++ functions.map (entry abi) := by
  induction functions generalizing r with
  | nil =>
    cases h
    exact (List.append_nil _).symm
  | cons function functions ih =>
    rw [List.foldlM_cons] at h
    obtain ⟨next, hnext, h⟩ := Except.bind_eq_ok.1 h
    rw [ih h, functions_of_addFunction hnext, List.append_assoc, List.map_cons,
      List.singleton_append]

/-- The types of a function that has a signature are reportable. -/
def FunctionReportable (abi : Abi) (function : WorldFunction) : Prop :=
  ∀ sig, abi.functionSignature function.func = .ok sig →
    ∀ id ∈ sig.paramTypes ++ sig.resultTypes, abi.AllReportable id

theorem isResolve_of_addFunction (hall : FunctionReportable abi function)
    (h : addFunction abi r function = .error failure) : failure.isResolve = true := by
  rw [addFunction] at h
  split at h
  · cases h
    rfl
  · cases h
  · rename_i sig hsig
    rcases Except.bind_eq_error.1 h with h | ⟨_, -, h⟩
    · obtain ⟨e, he, rfl⟩ := Except.mapError_eq_error.1 h
      obtain ⟨id, hid, types, he⟩ := Except.exists_of_foldlM_eq_error he
      obtain ⟨c, rfl⟩ := unresolved_of_collect (hall sig hsig id hid) he
      rfl
    · cases h

/-- A report fails only where a name does not resolve, if the functions that have a signature are
made of types that can be reported. Otherwise every function is in it, with its signature or the
reason why it has none. -/
theorem ofFunctions_isolates (hall : ∀ function ∈ functions, FunctionReportable abi function) :
    (∀ failure, ofFunctions abi functions = .error failure → failure.isResolve = true) ∧
      ∀ r, ofFunctions abi functions = .ok r → r.functions = functions.map (entry abi) := by
  refine ⟨fun failure h => ?_, fun r h => functions_of_foldlM h⟩
  obtain ⟨function, hfunction, r, h⟩ := Except.exists_of_foldlM_eq_error h
  exact isResolve_of_addFunction (hall function hfunction) h

/-- A function on a stream, and one on a record with a list. -/
def mixed : Abi where
  arena := ⟨#[.scalar .u32, .list ⟨0⟩, .record { name := "entry" } [("ids", ⟨1⟩)],
    .stream none, .function { params := [("s", ⟨3⟩)], results := [] },
    .function { params := [("e", ⟨2⟩)], results := [⟨0⟩] }]⟩

/-- An imported function. -/
def imported (name : String) (func : Nat) : WorldFunction :=
  { direction := .imported, module := some "ns:x/api", name, func := ⟨func⟩ }

theorem ofFunctions_isolates_mixed :
    (∀ function ∈ [imported "bad" 4, imported "good" 5], FunctionReportable mixed function) ∧
      ∃ r sig, ofFunctions mixed [imported "bad" 4, imported "good" 5] = .ok r ∧
        r.functions =
          [{ function := imported "bad" 4,
             signature := .error (.unsupportedType "stream cannot be passed as a value") },
            { function := imported "good" 5, signature := .ok sig }] := by
  have hword : mixed.AllReportable ⟨0⟩ :=
    .of_parts rfl trivial rfl fun _ hpart => absurd hpart List.not_mem_nil
  have hlist : mixed.AllReportable ⟨1⟩ :=
    .of_parts rfl trivial rfl (List.forall_mem_singleton.2 hword)
  have hrecord : mixed.AllReportable ⟨2⟩ :=
    .of_parts rfl trivial rfl (List.forall_mem_singleton.2 hlist)
  have hall : ∀ function ∈ [imported "bad" 4, imported "good" 5],
      FunctionReportable mixed function := by
    refine List.forall_mem_cons.2 ⟨fun _ hsig => (nomatch hsig), List.forall_mem_singleton.2 ?_⟩
    rintro sig hsig
    cases hsig
    exact List.forall_mem_cons.2 ⟨hrecord, List.forall_mem_singleton.2 hword⟩
  exact ⟨hall, _, _, rfl, (ofFunctions_isolates hall).2 _ rfl⟩

/-- A function on a stream in a list, next to a resource, and a function on a number. -/
def hidden : Abi where
  arena := ⟨#[.stream none, .list ⟨0⟩, .resource { name := { name := "file" } }, .tuple [⟨1⟩, ⟨2⟩],
    .function { params := [("p", ⟨3⟩)], results := [] }, .scalar .u32,
    .function { params := [("n", ⟨5⟩)], results := [] }]⟩

/-- The first function has a signature, as the search for handles ends at the resource, and the
report then fails on the stream, whatever other functions there are. -/
theorem ofFunctions_stops_at_stream :
    ofFunctions hidden [imported "bad" 4, imported "good" 6] =
        .error (.abi (.unsupportedType "stream cannot be passed as a value")) ∧
      Failure.isResolve (.abi (.unsupportedType "stream cannot be passed as a value")) = false ∧
      ∃ sig, hidden.functionSignature ⟨6⟩ = .ok sig :=
  ⟨rfl, rfl, _, rfl⟩

end Report

end ComponentAbi
