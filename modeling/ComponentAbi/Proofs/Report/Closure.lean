import ComponentAbi.Proofs.Report.Collecting

/-!
# The types of a report

A report lists what occurs in its functions: the types of parameters and results of those that have
a signature, and whatever these are made of, where references are resolved before the parts are
looked at (`Report.Occurs`). Collecting starts anew for every type of a signature and shares the
list between them, so the invariant `Report.Tabulated` speaks of the list and of what is pending
together: a part of a listed type is listed or pending.

`Report.lists_reachable_types` puts the two directions together, and says when there is a report at
all. Nothing in it excludes types that contain themselves.
-/

namespace ComponentAbi

namespace TypeNode

variable {node : TypeNode} {id : TypeId}

/-- Values of the node are made of values of the type, or borrow it. -/
inductive MadeOf : TypeNode → TypeId → Prop where
  | element (id : TypeId) : MadeOf (.list id) id
  | payload (id : TypeId) : MadeOf (.option id) id
  | borrowed (id : TypeId) : MadeOf (.borrow id) id
  | member {elements : List TypeId} {id : TypeId} : id ∈ elements → MadeOf (.tuple elements) id
  | ok (id : TypeId) (err : Option TypeId) : MadeOf (.result (some id) err) id
  | err (ok : Option TypeId) (id : TypeId) : MadeOf (.result ok (some id)) id
  | field {name : TypeName} {fields : List (String × TypeId)} {label : String} {id : TypeId} :
      (label, id) ∈ fields → MadeOf (.record name fields) id
  | case {name : TypeName} {cases : List (String × Option TypeId)} {label : String}
      {id : TypeId} : (label, some id) ∈ cases → MadeOf (.variant name cases) id

theorem mem_reported_iff : id ∈ node.reported ↔ node.MadeOf id := by
  constructor
  · intro h
    cases node with
    | list | option | borrow =>
      cases List.mem_singleton.1 h
      constructor
    | tuple => exact .member h
    | result ok err =>
      rcases List.mem_append.1 h with h | h
      · cases Option.mem_toList.1 h
        exact .ok id err
      · cases Option.mem_toList.1 h
        exact .err ok id
    | record =>
      obtain ⟨⟨label, _⟩, hfield, rfl⟩ := List.mem_map.1 h
      exact .field hfield
    | variant =>
      obtain ⟨⟨label, payload⟩, hcase, rfl⟩ := List.mem_filterMap.1 h
      exact .case hcase
    | _ => cases h
  · rintro (_ | _ | _ | h | _ | _ | h | h)
    · exact List.mem_singleton_self _
    · exact List.mem_singleton_self _
    · exact List.mem_singleton_self _
    · exact h
    · exact List.mem_append_left _ (List.mem_singleton_self _)
    · exact List.mem_append_right _ (List.mem_singleton_self _)
    · exact List.mem_map_of_mem h
    · exact List.mem_filterMap.2 ⟨_, h, rfl⟩

end TypeNode

namespace Abi

variable {abi : Abi} {id part : TypeId}

theorem hasPart_iff : abi.HasPart id part ↔
    ∃ resolved node, abi.lookup id = .ok (resolved, node) ∧ node.MadeOf part := by
  simp only [HasPart, TypeNode.mem_reported_iff]

theorem types_of_functionSignature {func : TypeId} {sig : Signature}
    (h : abi.functionSignature func = .ok sig) : ∃ found type,
      abi.lookup func = .ok (found, .function type) ∧ sig.paramTypes = type.paramTypes ∧
        sig.resultTypes = type.results := by
  obtain ⟨⟨found, node⟩, hnode, h⟩ := Except.bind_eq_ok.1 h
  cases node with
  | function type =>
    refine ⟨found, type, hnode, ?_⟩
    obtain ⟨flatParams, -, h⟩ := Except.bind_eq_ok.1 h
    obtain ⟨flatResults, -, h⟩ := Except.bind_eq_ok.1 h
    simp only [ite_bind] at h
    obtain ⟨paramArea, -, h⟩ := Except.bind_eq_ok.1 h
    obtain ⟨returnArea, -, h⟩ := Except.bind_eq_ok.1 h
    obtain ⟨facts, -, h⟩ := Except.bind_eq_ok.1 h
    obtain ⟨transfer, -, h⟩ := Except.bind_eq_ok.1 h
    cases h
    exact ⟨rfl, rfl⟩
  | _ => cases h

end Abi

namespace Report

variable {abi : Abi} {types types' : List (TypeId × TypeReport)} {s s' : Progress}
  {P : TypeId → Prop} {id part : TypeId} {report : TypeReport}

/-! ### The list while it grows -/

theorem mem_insertType {entry : TypeId × TypeReport} :
    entry ∈ insertType id report types ↔ entry = (id, report) ∨ entry ∈ types := by
  induction types with
  | nil => exact List.mem_singleton.trans (or_iff_left List.not_mem_nil).symm
  | cons first rest ih =>
    rw [insertType]
    split
    · exact List.mem_cons
    · rw [List.mem_cons, ih, List.mem_cons]
      exact or_left_comm

theorem pairwise_insertType (hnew : types.lookup id = none)
    (h : types.Pairwise fun a b => a.1.index < b.1.index) :
    (insertType id report types).Pairwise fun a b => a.1.index < b.1.index := by
  induction types with
  | nil => exact List.pairwise_singleton _ _
  | cons first rest ih =>
    obtain ⟨key, old⟩ := first
    obtain ⟨hfirst, hrest⟩ := List.pairwise_cons.1 h
    have hkey : id ≠ key := by simpa using List.lookup_eq_none_iff.1 hnew _ List.mem_cons_self
    have hnone : rest.lookup id = none := List.lookup_eq_none_iff.2 fun entry hentry =>
      List.lookup_eq_none_iff.1 hnew entry (List.mem_cons_of_mem _ hentry)
    rw [insertType]
    split
    · rename_i hlt
      refine List.pairwise_cons.2 ⟨fun entry hentry => ?_, h⟩
      rcases List.mem_cons.1 hentry with rfl | hentry
      · exact hlt
      · exact Nat.lt_trans hlt (hfirst entry hentry)
    · rename_i hge
      have hlt : key.index < id.index :=
        Nat.lt_of_le_of_ne (Nat.not_lt.1 hge) fun he => hkey (congrArg TypeId.mk he.symm)
      refine List.pairwise_cons.2 ⟨fun entry hentry => ?_, ih hnone hrest⟩
      rcases mem_insertType.1 hentry with rfl | hentry
      · exact hlt
      · exact hfirst entry hentry

/-- What the type stands for is in the list. -/
def Listed (abi : Abi) (types : List (TypeId × TypeReport)) (id : TypeId) : Prop :=
  ∃ resolved node report, abi.lookup id = .ok (resolved, node) ∧ (resolved, report) ∈ types

/-- The type is listed, or will be. -/
def Covered (abi : Abi) (s : Progress) (id : TypeId) : Prop :=
  id ∈ s.pending ∨ Listed abi s.types id

/-- The list is in order, has nothing in it but types with the property `P`, and has all parts of
its types, or they are still to come. -/
structure Tabulated (abi : Abi) (P : TypeId → Prop) (s : Progress) : Prop where
  /-- A type is listed once, in ascending order. -/
  ordered : s.types.Pairwise fun a b => a.1.index < b.1.index
  /-- Every type is listed with its own report. -/
  reports : ∀ id report, (id, report) ∈ s.types → TypeReport.of abi id = .ok report
  /-- A listed type is what a type with the property stands for. -/
  sound : ∀ id report, (id, report) ∈ s.types →
    ∃ part node, P part ∧ abi.lookup part = .ok (id, node)
  /-- The pending types have the property. -/
  pending : ∀ id ∈ s.pending, P id
  /-- The parts of a listed type are listed or pending. -/
  closed : ∀ id report, (id, report) ∈ s.types → ∀ part, abi.HasPart id part → Covered abi s part

theorem Covered.step (h : Covered abi s id) (hstep : Step abi s s') : Covered abi s' id := by
  cases hstep with
  | known hnode hknown =>
    rcases h with h | h
    · rcases List.mem_cons.1 h with rfl | h
      · obtain ⟨⟨key, report⟩, hentry, hkey⟩ := List.lookup_isSome_iff.1 hknown
        cases eq_of_beq hkey
        exact .inr ⟨_, _, report, hnode, hentry⟩
      · exact .inl h
    · exact .inr h
  | added hnode hnew hreport =>
    rcases h with h | ⟨resolved, node, report, hid, hentry⟩
    · rcases List.mem_cons.1 h with rfl | h
      · exact .inr ⟨_, _, _, hnode, mem_insertType.2 (.inl rfl)⟩
      · exact .inl (List.mem_append_right _ h)
    · exact .inr ⟨resolved, node, report, hid, mem_insertType.2 (.inr hentry)⟩

theorem Tabulated.step (hP : ∀ id part, P id → abi.HasPart id part → P part)
    (h : Tabulated abi P s) (hstep : Step abi s s') : Tabulated abi P s' where
  ordered := by
    cases hstep with
    | known => exact h.ordered
    | added _ hnew => exact pairwise_insertType hnew h.ordered
  reports id report hentry := by
    cases hstep with
    | known => exact h.reports id report hentry
    | added _ _ hreport =>
      rcases mem_insertType.1 hentry with he | hentry
      · cases he
        exact hreport
      · exact h.reports id report hentry
  sound id report hentry := by
    cases hstep with
    | known => exact h.sound id report hentry
    | added hnode =>
      rcases mem_insertType.1 hentry with he | hentry
      · cases he
        exact ⟨_, _, h.pending _ List.mem_cons_self, hnode⟩
      · exact h.sound id report hentry
  pending := forall_pending_of_run hP (.single hstep) h.pending
  closed id report hentry part hpart := by
    have hold (hentry : (id, report) ∈ s.types) : Covered abi s' part :=
      (h.closed id report hentry part hpart).step hstep
    cases hstep with
    | known => exact hold hentry
    | added hnode =>
      rcases mem_insertType.1 hentry with he | hentry
      · -- The parts of the type that is added are now the first of the pending ones.
        cases he
        obtain ⟨found, other, hother, hmem⟩ := hpart
        rw [Abi.lookup_resolved hnode] at hother
        cases hother
        exact .inl (List.mem_append_left _ (List.mem_reverse.2 hmem))
      · exact hold hentry

theorem Covered.run (h : Covered abi s id) (hrun : Run abi s s') : Covered abi s' id := by
  induction hrun with
  | refl => exact h
  | tail _ hstep ih => exact ih.step hstep

theorem Tabulated.run (hP : ∀ id part, P id → abi.HasPart id part → P part)
    (h : Tabulated abi P s) (hrun : Run abi s s') : Tabulated abi P s' := by
  induction hrun with
  | refl => exact h
  | tail _ hstep ih => exact ih.step hP hstep

/-! ### Collecting for several types -/

theorem Covered.listed (h : Covered abi ⟨types, []⟩ id) : Listed abi types id :=
  h.resolve_left List.not_mem_nil

/-- A finished list stays one while a type is added to it, which is then listed like all that were
before. -/
theorem Tabulated.collect (hP : ∀ id part, P id → abi.HasPart id part → P part)
    (h : Tabulated abi P ⟨types, []⟩) (hid : P id)
    (hcollect : Report.collect abi types id = .ok types') :
    Tabulated abi P ⟨types', []⟩ ∧ Listed abi types' id ∧
      ∀ part, Listed abi types part → Listed abi types' part := by
  have hrun := run_of_collectWithin hcollect
  have hstart : Tabulated abi P ⟨types, [id]⟩ :=
    { h with
      pending := List.forall_mem_singleton.2 hid
      closed := fun id report hentry part hpart =>
        .inr (h.closed id report hentry part hpart).listed }
  refine ⟨hstart.run hP hrun, ?_, fun part hpart => ?_⟩
  · have hcovered : Covered abi ⟨types, [id]⟩ id := .inl (List.mem_singleton_self id)
    exact (hcovered.run hrun).listed
  · have hcovered : Covered abi ⟨types, [id]⟩ part := .inr hpart
    exact (hcovered.run hrun).listed

theorem Tabulated.collectAll {ids : List TypeId}
    (hP : ∀ id part, P id → abi.HasPart id part → P part) (h : Tabulated abi P ⟨types, []⟩)
    (hids : ∀ id ∈ ids, P id) (hcollect : ids.foldlM (Report.collect abi) types = .ok types') :
    Tabulated abi P ⟨types', []⟩ ∧ (∀ id ∈ ids, Listed abi types' id) ∧
      ∀ part, Listed abi types part → Listed abi types' part := by
  induction ids generalizing types with
  | nil =>
    cases hcollect
    exact ⟨h, nofun, fun _ => id⟩
  | cons id ids ih =>
    obtain ⟨hid, hids⟩ := List.forall_mem_cons.1 hids
    rw [List.foldlM_cons] at hcollect
    obtain ⟨next, hnext, hcollect⟩ := Except.bind_eq_ok.1 hcollect
    obtain ⟨hnext, hlisted, hkept⟩ := h.collect hP hid hnext
    obtain ⟨hlast, hall, hkept'⟩ := ih hnext hids hcollect
    exact ⟨hlast, List.forall_mem_cons.2 ⟨hkept' id hlisted, hall⟩,
      fun part hpart => hkept' part (hkept part hpart)⟩

/-! ### The types of functions -/

variable {r r' : Report} {function : WorldFunction} {functions : List WorldFunction}

/-- The types of the parameters and results, if the function has a signature. -/
def signatureTypes (abi : Abi) (function : WorldFunction) : List TypeId :=
  match abi.functionSignature function.func with
  | .ok sig => sig.paramTypes ++ sig.resultTypes
  | .error _ => []

/-- The type occurs in a function that has a signature. -/
inductive Occurs (abi : Abi) (functions : List WorldFunction) : TypeId → Prop where
  /-- The type of a parameter. -/
  | param {function : WorldFunction} {sig : Signature} {found id : TypeId} {type : FunctionType} :
      function ∈ functions → abi.functionSignature function.func = .ok sig →
      abi.lookup function.func = .ok (found, .function type) → id ∈ type.paramTypes →
      Occurs abi functions id
  /-- The type of a result. -/
  | result {function : WorldFunction} {sig : Signature} {found id : TypeId} {type : FunctionType} :
      function ∈ functions → abi.functionSignature function.func = .ok sig →
      abi.lookup function.func = .ok (found, .function type) → id ∈ type.results →
      Occurs abi functions id
  /-- What a type that occurs is made of, once it is resolved. -/
  | part {id resolved part : TypeId} {node : TypeNode} : Occurs abi functions id →
      abi.lookup id = .ok (resolved, node) → node.MadeOf part → Occurs abi functions part

theorem Occurs.of_hasPart (id part : TypeId) (h : Occurs abi functions id)
    (hpart : abi.HasPart id part) : Occurs abi functions part :=
  let ⟨_, _, hnode, hmade⟩ := Abi.hasPart_iff.1 hpart
  .part h hnode hmade

theorem Occurs.of_signatureTypes (hfunction : function ∈ functions)
    (h : id ∈ signatureTypes abi function) : Occurs abi functions id := by
  unfold signatureTypes at h
  split at h
  · rename_i sig hsig
    obtain ⟨found, type, hfunc, hparams, hresults⟩ := Abi.types_of_functionSignature hsig
    rw [hparams, hresults] at h
    rcases List.mem_append.1 h with h | h
    · exact .param hfunction hsig hfunc h
    · exact .result hfunction hsig hfunc h
  · cases h

/-- A property of the types in signatures that goes over to parts holds of all that occurs. -/
theorem Occurs.induct (h : Occurs abi functions id)
    (hroot : ∀ function ∈ functions, ∀ id ∈ signatureTypes abi function, P id)
    (hP : ∀ id part, P id → abi.HasPart id part → P part) : P id := by
  have hsigned {function : WorldFunction} {sig : Signature} {found id : TypeId}
      {type : FunctionType} (hfunction : function ∈ functions)
      (hsig : abi.functionSignature function.func = .ok sig)
      (hfunc : abi.lookup function.func = .ok (found, .function type))
      (hid : id ∈ type.paramTypes ++ type.results) : P id := by
    refine hroot function hfunction id ?_
    obtain ⟨found', type', hfunc', hparams, hresults⟩ := Abi.types_of_functionSignature hsig
    rw [hfunc] at hfunc'
    cases hfunc'
    rw [signatureTypes, hsig]
    dsimp only
    rwa [hparams, hresults]
  induction h with
  | param hfunction hsig hfunc hid =>
    exact hsigned hfunction hsig hfunc (List.mem_append_left _ hid)
  | result hfunction hsig hfunc hid =>
    exact hsigned hfunction hsig hfunc (List.mem_append_right _ hid)
  | part _ hnode hmade ih => exact hP _ _ ih (Abi.hasPart_iff.2 ⟨_, _, hnode, hmade⟩)

/-- Whether the function has a signature is not known, as a name in its types does not resolve. -/
def Unresolved (abi : Abi) (function : WorldFunction) : Prop :=
  ∃ cause, abi.functionSignature function.func = .error (.unresolved cause)

theorem addFunction_eq_ok (h : addFunction abi r function = .ok r') : ¬Unresolved abi function ∧
    (signatureTypes abi function).foldlM (collect abi) r.types = .ok r'.types := by
  unfold addFunction at h
  unfold Unresolved signatureTypes
  split at h
  · cases h
  · rename_i cause hcause hsig
    cases h
    rw [hsig]
    refine ⟨?_, rfl⟩
    rintro ⟨missing, hmissing⟩
    exact hcause missing (Except.error.inj hmissing)
  · rename_i sig hsig
    obtain ⟨types, hcollect, h⟩ := Except.bind_eq_ok.1 h
    cases h
    rw [hsig]
    refine ⟨?_, Except.mapError_eq_ok.1 hcollect⟩
    rintro ⟨missing, hmissing⟩
    cases hmissing

theorem addFunction_eq_error {failure : Failure}
    (h : addFunction abi r function = .error failure) : Unresolved abi function ∨
      ∃ id ∈ signatureTypes abi function, ∃ types e, collect abi types id = .error e := by
  unfold addFunction at h
  unfold Unresolved signatureTypes
  split at h
  · rename_i cause hsig
    exact .inl ⟨cause, hsig⟩
  · cases h
  · rename_i sig hsig
    rw [hsig]
    rcases Except.bind_eq_error.1 h with h | ⟨_, -, h⟩
    · obtain ⟨e, he, rfl⟩ := Except.mapError_eq_error.1 h
      obtain ⟨id, hid, types, he⟩ := Except.exists_of_foldlM_eq_error he
      exact .inr ⟨id, hid, types, e, he⟩
    · cases h

/-- Adding functions keeps the list in order, and lists the types of their signatures. -/
theorem Tabulated.addAll {all : List WorldFunction} (hall : ∀ f ∈ functions, f ∈ all)
    (h : Tabulated abi (Occurs abi all) ⟨r.types, []⟩)
    (hadd : functions.foldlM (addFunction abi) r = .ok r') :
    Tabulated abi (Occurs abi all) ⟨r'.types, []⟩ ∧
      (∀ f ∈ functions, ¬Unresolved abi f ∧ ∀ id ∈ signatureTypes abi f, Listed abi r'.types id) ∧
      ∀ part, Listed abi r.types part → Listed abi r'.types part := by
  induction functions generalizing r with
  | nil =>
    cases hadd
    exact ⟨h, nofun, fun _ => id⟩
  | cons f functions ih =>
    obtain ⟨hf, hall⟩ := List.forall_mem_cons.1 hall
    rw [List.foldlM_cons] at hadd
    obtain ⟨next, hnext, hadd⟩ := Except.bind_eq_ok.1 hadd
    obtain ⟨hresolved, hcollect⟩ := addFunction_eq_ok hnext
    obtain ⟨hnext, hlisted, hkept⟩ :=
      h.collectAll Occurs.of_hasPart (fun _ => Occurs.of_signatureTypes hf) hcollect
    obtain ⟨hlast, hrest, hkept'⟩ := ih hall hnext hadd
    exact ⟨hlast,
      List.forall_mem_cons.2 ⟨⟨hresolved, fun id hid => hkept' id (hlisted id hid)⟩, hrest⟩,
      fun part hpart => hkept' part (hkept part hpart)⟩

theorem tabulated_of_ofFunctions (h : ofFunctions abi functions = .ok r) :
    Tabulated abi (Occurs abi functions) ⟨r.types, []⟩ ∧
      ∀ f ∈ functions, ¬Unresolved abi f ∧ ∀ id ∈ signatureTypes abi f, Listed abi r.types id := by
  have hempty : Tabulated abi (Occurs abi functions) ⟨[], []⟩ :=
    ⟨.nil, nofun, nofun, nofun, nofun⟩
  obtain ⟨htable, hsigned, -⟩ := hempty.addAll (r := { functions := [], types := [] })
    (fun _ => id) h
  exact ⟨htable, hsigned⟩

/-- A finished list that has the types of the signatures has everything that occurs. -/
theorem Occurs.listed (h : Occurs abi functions id) (htable : Tabulated abi P ⟨types, []⟩)
    (hsigned : ∀ f ∈ functions, ∀ id ∈ signatureTypes abi f, Listed abi types id) :
    Listed abi types id := by
  refine h.induct hsigned fun id part hid hpart => ?_
  obtain ⟨resolved, node, report, hnode, hentry⟩ := hid
  obtain ⟨found, other, hother, hmem⟩ := hpart
  rw [hnode] at hother
  cases hother
  exact (htable.closed resolved report hentry part ⟨_, _, Abi.lookup_resolved hnode, hmem⟩).listed

/-- If there is no report, a name does not resolve in a signature, or a type that occurs cannot be
listed. -/
theorem exists_of_ofFunctions_eq_error {failure : Failure}
    (h : ofFunctions abi functions = .error failure) :
    (∃ f ∈ functions, Unresolved abi f) ∨
      ∃ id e, Occurs abi functions id ∧ Unlistable abi id e := by
  obtain ⟨f, hf, r, h⟩ := Except.exists_of_foldlM_eq_error h
  rcases addFunction_eq_error h with hsig | ⟨id, hid, types, e, h⟩
  · exact .inl ⟨f, hf, hsig⟩
  · obtain ⟨types', next, pending', hrun, hnext⟩ := exists_run_of_collect h
    have hoccurs : Occurs abi functions next :=
      forall_pending_of_run Occurs.of_hasPart hrun
        (List.forall_mem_singleton.2 (.of_signatureTypes hf hid)) next List.mem_cons_self
    exact .inr ⟨next, e, hoccurs, hnext⟩

theorem Occurs.of_reaches (h : Occurs abi functions id) (hpart : abi.Reaches id part) :
    Occurs abi functions part := by
  induction hpart with
  | refl => exact h
  | tail _ hpart ih => exact ih.of_hasPart _ _ hpart

/-- What occurs can be listed, if all of it can be looked up, has values, and contains itself
through lists only. -/
theorem Occurs.not_unlistable
    (hall : ∀ part, Occurs abi functions part →
      (∃ x, abi.lookup part = .ok x) ∧ abi.Reportable part)
    (h : Occurs abi functions id) (e : AbiError) : ¬Unlistable abi id e := by
  have hfound {part : TypeId} (hpart : abi.Reaches id part) : abi.lookup part ≠ .error e := by
    obtain ⟨⟨x, hx⟩, -⟩ := hall part (h.of_reaches hpart)
    rw [hx]
    nofun
  rintro (he | ⟨resolved, node, hnode, he⟩)
  · exact hfound .refl he
  · have hreportable : abi.AllReportable id := fun part hpart => (hall part (h.of_reaches hpart)).2
    obtain ⟨part, hreach, hpart⟩ := (hreportable.of_lookup hnode).misses_of_report he
    -- Nothing is between the type and what it stands for.
    rcases hreach.cases_head with rfl | ⟨next, ⟨found, other, hother, hmem⟩, hreach⟩
    · rw [Abi.lookup_resolved hnode] at hpart
      cases hpart
    · rw [Abi.lookup_resolved hnode, ← hnode] at hother
      exact hfound (.head ⟨found, other, hother, hmem⟩ hreach) hpart

/-- The types of a report are what occurs in its functions with references resolved, each listed
once and with its own report. There is a report if and only if no name is missing in a signature and
everything that occurs can be listed, and that is so wherever types have values and contain
themselves through lists only. -/
theorem lists_reachable_types (abi : Abi) (functions : List WorldFunction) :
    (∀ r, ofFunctions abi functions = .ok r →
      r.types.Pairwise (fun a b => a.1.index < b.1.index) ∧
      (∀ id, (∃ report, (id, report) ∈ r.types) ↔
        ∃ part node, Occurs abi functions part ∧ abi.lookup part = .ok (id, node)) ∧
      ∀ id report, (id, report) ∈ r.types → TypeReport.of abi id = .ok report) ∧
    ((∃ r, ofFunctions abi functions = .ok r) ↔
      (∀ f ∈ functions, ¬Unresolved abi f) ∧ ∀ part, Occurs abi functions part →
        ∃ id node report, abi.lookup part = .ok (id, node) ∧ TypeReport.of abi id = .ok report) ∧
    ((∀ f ∈ functions, ¬Unresolved abi f) →
      (∀ part, Occurs abi functions part →
        (∃ x, abi.lookup part = .ok x) ∧ abi.Reportable part) →
      ∃ r, ofFunctions abi functions = .ok r) := by
  have hanswer (hresolved : ∀ f ∈ functions, ¬Unresolved abi f)
      (hlistable : ∀ id e, Occurs abi functions id → ¬Unlistable abi id e) :
      ∃ r, ofFunctions abi functions = .ok r := by
    cases h : ofFunctions abi functions with
    | ok r => exact ⟨r, rfl⟩
    | error failure =>
      rcases exists_of_ofFunctions_eq_error h with ⟨f, hf, hsig⟩ | ⟨id, e, hid, he⟩
      · exact absurd hsig (hresolved f hf)
      · exact absurd he (hlistable id e hid)
  refine ⟨fun r h => ?_, ⟨?_, ?_⟩, fun hresolved hall => ?_⟩
  · obtain ⟨htable, hsigned⟩ := tabulated_of_ofFunctions h
    refine ⟨htable.ordered, fun id => ⟨fun ⟨report, hentry⟩ => htable.sound id report hentry, ?_⟩,
      htable.reports⟩
    rintro ⟨part, node, hpart, hnode⟩
    obtain ⟨found, other, report, hother, hentry⟩ :=
      hpart.listed htable fun f hf => (hsigned f hf).2
    rw [hnode] at hother
    cases hother
    exact ⟨report, hentry⟩
  · rintro ⟨r, h⟩
    obtain ⟨htable, hsigned⟩ := tabulated_of_ofFunctions h
    refine ⟨fun f hf => (hsigned f hf).1, fun part hpart => ?_⟩
    obtain ⟨id, node, report, hnode, hentry⟩ := hpart.listed htable fun f hf => (hsigned f hf).2
    exact ⟨id, node, report, hnode, htable.reports id report hentry⟩
  · rintro ⟨hresolved, hlist⟩
    refine hanswer hresolved fun part e hpart he => ?_
    obtain ⟨id, node, report, hnode, hreport⟩ := hlist part hpart
    rcases he with he | ⟨found, other, hother, he⟩
    · rw [hnode] at he
      cases he
    · rw [hnode] at hother
      cases hother
      rw [hreport] at he
      cases he
  · exact hanswer hresolved fun id e hid => hid.not_unlistable hall e

/-- Trees whose leaves are borrowed files, by name and in place, and functions on them of which one
has no signature. -/
def forest : Abi where
  arena := ⟨#[.resource { name := { name := "file" } }, .borrow ⟨0⟩,
    .variant { name := "tree" } [("leaf", some ⟨1⟩), ("fork", some ⟨3⟩)], .list ⟨4⟩,
    .reference (.named Abi.geo "tree"), .stream none, .option ⟨7⟩, .scalar .u8,
    .function { params := [("t", ⟨4⟩)], results := [⟨3⟩] },
    .function { params := [("s", ⟨5⟩), ("o", ⟨6⟩)], results := [] }]⟩
  store? := some (PackageStore.insert {} Abi.geo { definitions := { types := ⟨[("tree", ⟨2⟩)]⟩ } })

theorem lists_reachable_types_forest : ∃ r,
    ofFunctions forest [imported "grow" 8, imported "send" 9] = .ok r ∧
      r.types.map (·.1) = [⟨0⟩, ⟨1⟩, ⟨2⟩, ⟨3⟩] ∧
      (∃ part node, Occurs forest [imported "grow" 8, imported "send" 9] part ∧
        forest.lookup part = .ok (⟨0⟩, node)) ∧
      ¬∃ part node, Occurs forest [imported "grow" 8, imported "send" 9] part ∧
        forest.lookup part = .ok (⟨7⟩, node) := by
  obtain ⟨r, hr, hkeys⟩ : ∃ r, ofFunctions forest [imported "grow" 8, imported "send" 9] = .ok r ∧
      r.types.map (·.1) = [⟨0⟩, ⟨1⟩, ⟨2⟩, ⟨3⟩] := ⟨_, rfl, rfl⟩
  obtain ⟨-, hiff, -⟩ := (lists_reachable_types forest _).1 r hr
  have hmem (id : TypeId) : (∃ report, (id, report) ∈ r.types) ↔
      id ∈ [(⟨0⟩ : TypeId), ⟨1⟩, ⟨2⟩, ⟨3⟩] := by
    rw [← hkeys, List.mem_map]
    exact ⟨fun ⟨report, h⟩ => ⟨_, h, rfl⟩, fun ⟨⟨_, report⟩, h, he⟩ => ⟨report, he ▸ h⟩⟩
  refine ⟨r, hr, hkeys, (hiff ⟨0⟩).1 ((hmem _).2 (by decide)), fun h => ?_⟩
  exact absurd ((hmem _).1 ((hiff ⟨7⟩).2 h)) (by decide)

end Report

end ComponentAbi
