import Mathlib
import ComponentAbi.Proofs.Marshal.Handles
import ComponentAbi.Proofs.Marshal.Passing
import ComponentAbi.Proofs.Memory.Settled

/-!
# Types that own nothing

Before any value is seen, a type says whether its values may own memory (`Abi.needsDeallocate`) and
whether they may carry owned handles (`Abi.ownsHandles`). An answer of no holds for every value:

* `Abi.keeps_lowerWithin`, `Abi.keeps_storeWithin` : lowering a value of a type that owns no memory
  leaves the memory alone, and storing one hands out no block;
* `Abi.ownedHandles_eq_nil` : a value of a type that owns no handles carries none;
* `Abi.flagged_of_functionSignature` : a signature says no of its parameters or results only if it
  is the answer for each of them;
* `Abi.static_answers_sound` : what follows for values and for calls.
-/

namespace ComponentAbi

open Memory MemoryM

/-- What changes when a block is handed out or freed: the ledger, and the size. -/
def Memory.outline (m : Memory) : List Block × Nat :=
  (m.ledger, m.size)

namespace MemoryM

variable {α β γ : Type} {view : Memory → γ}

/-- The step does not change what is seen of the memory, whether it succeeds or not. -/
def Keeps (view : Memory → γ) (x : MemoryM α) : Prop :=
  ∀ m, view (x.runOn m).2 = view m

theorem keeps_pure (a : α) : Keeps view (pure a) :=
  fun _ => rfl

theorem keeps_throw (e : AbiError) : Keeps view (throw e : MemoryM α) :=
  fun _ => rfl

theorem keeps_liftM (x : Except AbiError α) : Keeps view (liftM x : MemoryM α) :=
  fun _ => rfl

theorem Keeps.bind {x : MemoryM α} {f : α → MemoryM β} (hx : Keeps view x)
    (hf : ∀ a, Keeps view (f a)) : Keeps view (x >>= f) := by
  intro m
  have hm := hx m
  refine runOn_bind_cases (Q := fun o => view o.2 = view m) (fun e m' h => ?_) fun a m' h => ?_
  · rwa [h] at hm
  · rw [h] at hm
    exact (hf a m').trans hm

/-- Of a step that does not see the memory, only the answers it can give matter. -/
theorem Keeps.bind_liftM {x : Except AbiError α} {f : α → MemoryM β}
    (hf : ∀ a, x = .ok a → Keeps view (f a)) : Keeps view (liftM x >>= f) := by
  cases x with
  | error e => exact keeps_throw e
  | ok a => exact hf a rfl

theorem keeps_forM {xs : List α} {f : α → MemoryM PUnit} (hf : ∀ x ∈ xs, Keeps view (f x)) :
    Keeps view (xs.forM f) := by
  induction xs with
  | nil => exact keeps_pure _
  | cons x xs ih =>
    exact (hf x List.mem_cons_self).bind fun _ => ih fun y hy => hf y (List.mem_cons_of_mem _ hy)

theorem keeps_mapM {xs : List α} {f : α → MemoryM β} (hf : ∀ x ∈ xs, Keeps view (f x)) :
    Keeps view (xs.mapM f) := by
  induction xs with
  | nil => exact keeps_pure _
  | cons x xs ih =>
    rw [List.mapM_cons]
    refine (hf x List.mem_cons_self).bind fun _ => ?_
    exact (ih fun y hy => hf y (List.mem_cons_of_mem _ hy)).bind fun _ => keeps_pure _

theorem keeps_writeNat (p width n : Nat) : Keeps outline (writeNat p width n) := by
  intro m
  rw [writeNat, runOn_write]
  cases hw : m.write p (LittleEndian.bytes width n) with
  | error e => rfl
  | ok m' => exact Prod.ext (write_ledger hw).1 (write_ledger hw).2

/-- Where nothing was handed out, a guard finds nothing to free. -/
theorem Keeps.guarded {x : MemoryM α} (hx : Keeps outline x) : Keeps outline (guarded x) := by
  intro m
  have hm := hx m
  rw [runOn_guarded]
  generalize x.runOn m = o at hm ⊢
  obtain ⟨r, m'⟩ := o
  cases r with
  | ok a => exact hm
  | error e =>
    obtain ⟨hledger, hsize⟩ := Prod.ext_iff.1 hm
    refine Prod.ext ?_ hsize
    have hl : m'.ledger = [] ++ m.ledger := hledger
    change (m'.releaseSince m.mark).2.ledger = m.ledger
    rw [releaseSince_of_append hl]
    rfl

end MemoryM

namespace Abi

variable {abi : Abi} {id : TypeId} {sig : Signature} {m m' : Memory} {d : Nat} {s : Shape}

/-! ### Types that own no memory -/

theorem keeps_storeWithin (hs : s.ownsMemory = false) (v : Value) (p : Nat) :
    Keeps outline (abi.storeWithin d s v p) := by
  induction d generalizing s v p with
  | zero => exact keeps_throw _
  | succ d ih =>
    cases s with
    | leaf l => exact (keeps_liftM _).bind fun bits => keeps_writeNat p l.width bits
    | string | list => cases hs
    | product kind fields =>
      refine (keeps_liftM _).bind fun parts => (keeps_liftM _).bind fun offsets => ?_
      refine keeps_forM fun entry hm => (keeps_liftM _).bind fun v => ih ?_ v _
      exact Shape.fieldsOwnMemory_eq_false.1 hs _ (List.of_mem_zip (List.of_mem_zip hm).1).1
    | sum kind cases =>
      refine Keeps.bind_liftM fun selected hsel => (keeps_liftM _).bind fun layout => ?_
      obtain ⟨index, payload⟩ := selected
      refine (keeps_writeNat _ _ _).bind fun _ => ?_
      cases payload with
      | none => exact keeps_pure _
      | some paired =>
        obtain ⟨label, hm⟩ := SumKind.mem_of_select hsel
        exact ih (Shape.casesOwnMemory_eq_false.1 hs _ _ hm) _ _
    | unsupported | unresolved => exact keeps_throw _

/-- Words have room for all of the value, so not even the contents of the memory change. -/
theorem keeps_lowerWithin (hs : s.ownsMemory = false) (v : Value) :
    Keeps (fun m => m) (abi.lowerWithin d s v) := by
  induction d generalizing s v with
  | zero => exact keeps_throw _
  | succ d ih =>
    cases s with
    | leaf l => exact (keeps_liftM _).bind fun bits => keeps_pure _
    | string | list => cases hs
    | product kind fields =>
      refine (keeps_liftM _).bind fun parts => Keeps.bind (keeps_mapM fun entry hm => ?_) fun _ =>
        keeps_pure _
      refine (keeps_liftM _).bind fun v => ih ?_ v
      exact Shape.fieldsOwnMemory_eq_false.1 hs _ (List.of_mem_zip hm).1
    | sum kind cases =>
      refine Keeps.bind_liftM fun selected hsel => (keeps_liftM _).bind fun slots => ?_
      obtain ⟨index, payload⟩ := selected
      have hfill (words : List Word) : Keeps (fun m => m) (do
          let filled ← (liftM (Shape.fillSlots slots words) : MemoryM (List Word))
          return Word.ofNat index :: filled) := (keeps_liftM _).bind fun _ => keeps_pure _
      cases payload with
      | none => exact (keeps_pure _).bind hfill
      | some paired =>
        obtain ⟨label, hm⟩ := SumKind.mem_of_select hsel
        exact (ih (Shape.casesOwnMemory_eq_false.1 hs _ _ hm) _).bind hfill
    | unsupported | unresolved => exact keeps_throw _

theorem keeps_storeFields {ids : List TypeId} (hs : ∀ id ∈ ids, (abi.shape id).ownsMemory = false)
    (values : List Value) (p : Nat) : Keeps outline (abi.storeFields ids values p) := by
  refine (keeps_liftM _).bind fun offsets => keeps_forM fun entry hm => ?_
  exact keeps_storeWithin (hs _ (List.of_mem_zip (List.of_mem_zip hm).1).1) _ _

theorem keeps_lowerAll {ids : List TypeId} (hs : ∀ id ∈ ids, (abi.shape id).ownsMemory = false)
    (values : List Value) : Keeps (fun m => m) (abi.lowerAll ids values) := by
  refine Keeps.bind (keeps_mapM fun entry hm => ?_) fun _ => keeps_pure _
  exact keeps_lowerWithin (hs _ (List.of_mem_zip hm).1) _

/-- Results that own no memory are passed without handing out a block, wherever they go. -/
theorem keeps_lowerResults (hs : ∀ id ∈ sig.resultTypes, (abi.shape id).ownsMemory = false)
    (lowered : LoweredCall) (results : List Value) :
    Keeps outline (abi.lowerResults sig lowered results) := by
  refine (keeps_liftM _).bind fun _ => Keeps.guarded ?_
  cases lowered.returnArea with
  | some start => exact (keeps_storeFields hs results start).bind fun _ => keeps_pure _
  | none => exact fun m => congrArg outline (keeps_lowerAll hs results m)

/-! ### Types that own no handles -/

/-- Where no part has handles, there are none. -/
theorem flatten_eq_nil {α : Type} {f : α → Except AbiError (List UInt32)} {xs : List α}
    (h : ∀ x ∈ xs, f x = .ok []) :
    (do return (← xs.mapM f).flatten : Except AbiError (List UInt32)) = .ok [] := by
  have hm : xs.mapM f = .ok (xs.map fun _ => []) := by
    induction xs with
    | nil => rfl
    | cons x xs ih =>
      obtain ⟨hx, hxs⟩ := List.forall_mem_cons.1 h
      exact Except.mapM_cons_eq_ok.2 ⟨_, _, hx, ih hxs, rfl⟩
  rw [hm]
  change Except.ok (xs.map fun _ => ([] : List UInt32)).flatten = .ok []
  simp

/-- A value is only looked into along the components of its type, and there is no resource among
them, however often the type contains itself. -/
theorem ownedHandlesWithin_eq_nil {p : TypeNode → Bool} {nodes : TypeId → Prop}
    (hp : ∀ r, p (.resource r) = true) (hclosed : ∀ r, nodes r → abi.Barren p nodes r)
    {fuel : Nat} {v : Value} (hid : abi.Within nodes id) (hf : v.depth < fuel) :
    abi.ownedHandlesWithin fuel id v = .ok [] := by
  induction fuel generalizing id v with
  | zero => cases hf
  | succ fuel ih =>
    obtain ⟨resolved, node, hl, hresolved⟩ := hid
    obtain ⟨hnot, hparts⟩ := hclosed resolved hresolved node (get?_of_lookup hl)
    rw [ownedHandlesWithin, hl]
    have hpayload (part : Option TypeId) (payload : Option Value)
        (hpart : ∀ id, part = some id → id ∈ node.components)
        (hd : Value.payloadDepth payload < fuel) :
        abi.ownedHandlesOfPayload fuel part payload = .ok [] := by
      cases part with
      | none => rfl
      | some part =>
        cases payload with
        | none => rfl
        | some v => exact ih (hparts part (hpart part rfl)) hd
    cases node with
    | resource r => cases (hp r).symm.trans hnot
    | list element =>
      cases v with
      | list items =>
        refine flatten_eq_nil fun item hm => ih (hparts element List.mem_cons_self) ?_
        exact Nat.lt_of_le_of_lt (Value.depth_le_depths hm) (Nat.lt_of_succ_lt_succ hf)
      | _ => rfl
    | tuple elements =>
      cases v with
      | tuple items =>
        refine flatten_eq_nil fun entry hm => ih (hparts _ (List.of_mem_zip hm).1) ?_
        exact Nat.lt_of_le_of_lt (Value.depth_le_depths (List.of_mem_zip hm).2)
          (Nat.lt_of_succ_lt_succ hf)
      | _ => rfl
    | record name fields =>
      cases v with
      | record given =>
        refine flatten_eq_nil fun field hm => ?_
        dsimp only
        cases hg : given.lookup field.1 with
        | none => rfl
        | some v =>
          refine ih (hparts _ (List.mem_map_of_mem hm)) ?_
          exact Nat.lt_of_le_of_lt (Value.depth_le_fieldDepths hg) (Nat.lt_of_succ_lt_succ hf)
      | _ => rfl
    | option part =>
      cases v with
      | option payload =>
        exact hpayload (some part) payload (fun id he => by cases he; exact List.mem_cons_self)
          (Nat.lt_of_succ_lt_succ hf)
      | _ => rfl
    | result ok err =>
      cases v with
      | ok payload =>
        exact hpayload ok payload (fun id he => List.mem_append_left _ (by simp [he]))
          (Nat.lt_of_succ_lt_succ hf)
      | err payload =>
        exact hpayload err payload (fun id he => List.mem_append_right _ (by simp [he]))
          (Nat.lt_of_succ_lt_succ hf)
      | _ => rfl
    | variant name cases =>
      cases v with
      | variant label payload =>
        refine hpayload (cases.lookup label).join payload (fun id he => ?_)
          (Nat.lt_of_succ_lt_succ hf)
        cases hc : cases.lookup label with
        | none => rw [hc] at he; cases he
        | some part =>
          obtain ⟨before, after, hcases, -⟩ := List.lookup_eq_some_iff.1 hc
          rw [hc] at he
          cases he
          exact List.mem_filterMap.2 ⟨(label, some id), by simp [hcases], rfl⟩
      | _ => rfl
    | _ => cases v <;> rfl

theorem ownedHandles_eq_nil (h : abi.ownsHandles id = .ok false) (v : Value) :
    abi.ownedHandles id v = .ok [] := by
  obtain ⟨nodes, -, hid, hclosed⟩ := closed_of_searchWithin h
  exact ownedHandlesWithin_eq_nil (fun _ => rfl)
    (fun r hr => hclosed r hr List.not_mem_nil) (hid id (List.mem_singleton_self id))
    (Nat.lt_succ_self _)

theorem ownedHandlesOfAll_eq_nil {ids : List TypeId}
    (h : ∀ id ∈ ids, abi.ownsHandles id = .ok false)
    (values : List Value) : abi.ownedHandlesOfAll ids values = .ok [] :=
  flatten_eq_nil fun _ hm => ownedHandles_eq_nil (h _ (List.of_mem_zip hm).1) _

/-! ### Signatures and calls -/

/-- If a search says no of some types together, it says no of each. -/
theorem eq_false_of_anyType {search : TypeId → Except AbiError Bool} {ids : List TypeId}
    (h : anyType search ids = .ok false) : ∀ id ∈ ids, search id = .ok false := by
  intro id hm
  obtain ⟨answers, hanswers, hany⟩ := Except.map_eq_ok.1 h
  obtain ⟨answer, hanswer, hid⟩ := Except.exists_mem_of_mem_mapM hanswers hm
  have hfalse := List.any_eq_false.1 hany answer hanswer
  rwa [show answer = false by simpa using hfalse] at hid

/-- A signature that says that no handles move was made from types that own none. -/
theorem handleless_of_functionSignature (h : abi.functionSignature id = .ok sig) :
    (sig.paramsTransferHandles = false → ∀ id ∈ sig.paramTypes, abi.ownsHandles id = .ok false) ∧
    (sig.resultsTransferHandles = false →
      ∀ id ∈ sig.resultTypes, abi.ownsHandles id = .ok false) := by
  obtain ⟨⟨resolved, node⟩, -, h⟩ := Except.bind_eq_ok.1 h
  cases node with
  | function f =>
    obtain ⟨_, -, h⟩ := Except.bind_eq_ok.1 h
    obtain ⟨_, -, h⟩ := Except.bind_eq_ok.1 h
    simp only [ite_bind] at h
    obtain ⟨_, -, h⟩ := Except.bind_eq_ok.1 h
    obtain ⟨_, -, h⟩ := Except.bind_eq_ok.1 h
    obtain ⟨facts, hfacts, h⟩ := Except.bind_eq_ok.1 h
    obtain ⟨transfer, htransfer, h⟩ := Except.bind_eq_ok.1 h
    cases h
    refine ⟨fun hnone => eq_false_of_anyType (hnone ▸ htransfer), fun hnone id hm => ?_⟩
    obtain ⟨fact, hfact, hid⟩ := Except.exists_mem_of_mem_mapM hfacts hm
    obtain ⟨deallocates, -, hid⟩ := Except.bind_eq_ok.1 hid
    obtain ⟨owns, howns, hid⟩ := Except.bind_eq_ok.1 hid
    cases hid
    have hfalse := List.any_eq_false.1 hnone _ hfact
    rwa [show owns = false by simpa using hfalse] at howns
  | _ => cases h

/-- What a call that succeeds says of the handles that moved. -/
theorem moved_of_call {args : List Value} {callee : List Value → Except AbiError (List Value)}
    {outcome : CallOutcome} (h : runOn (abi.call sig args callee) m = (.ok outcome, m')) :
    abi.ownedHandlesOfAll sig.paramTypes args = .ok outcome.movedToCallee ∧
      abi.ownedHandlesOfAll sig.resultTypes outcome.results = .ok outcome.movedToCaller := by
  rw [call_eq] at h
  obtain ⟨moved, hmoved, h⟩ := runOn_bind_liftM_eq_ok.1 (runOn_of_guarded_ok h)
  obtain ⟨crossed, m₁, -, h⟩ := runOn_bind_eq_ok.1 h
  obtain ⟨returned, -, h⟩ := runOn_bind_liftM_eq_ok.1 h
  obtain ⟨results, m₂, -, h⟩ := runOn_bind_eq_ok.1 h
  obtain ⟨received, hreceived, h⟩ := runOn_bind_liftM_eq_ok.1 h
  cases h
  exact ⟨hmoved, hreceived⟩

/-- What is said of a type without looking at values is so of every value of the type, and what a
signature says is so of every call. -/
theorem static_answers_sound (abi : Abi) :
    (∀ id, abi.needsDeallocate id = .ok false → ∀ v m,
      (runOn (abi.lowerFlat id v) m).2 = m ∧
      ∀ p, (runOn (abi.store id v p) m).2.outline = m.outline) ∧
    (∀ id, abi.ownsHandles id = .ok false → ∀ v, abi.ownedHandles id v = .ok []) ∧
    ∀ f sig, abi.functionSignature f = .ok sig →
      (sig.needsPostReturn = false → ∀ lowered results m,
        (runOn (abi.lowerResults sig lowered results) m).2.outline = m.outline) ∧
      ∀ args callee m outcome m', runOn (abi.call sig args callee) m = (.ok outcome, m') →
        (sig.paramsTransferHandles = false → outcome.movedToCallee = []) ∧
        (sig.resultsTransferHandles = false → outcome.movedToCaller = []) := by
  refine ⟨fun id hid v m => ?_, fun id => ownedHandles_eq_nil, fun f sig hsig => ⟨?_, ?_⟩⟩
  · have hs := not_ownsMemory_of_needsDeallocate hid
    exact ⟨keeps_lowerWithin hs v m, fun p => keeps_storeWithin hs v p m⟩
  · exact fun hnone => keeps_lowerResults ((signed_of_functionSignature hsig).ownsNothing hnone)
  · intro args callee m outcome m' hcall
    obtain ⟨hparams, hresults⟩ := handleless_of_functionSignature hsig
    obtain ⟨hcallee, hcaller⟩ := moved_of_call hcall
    refine ⟨fun hnone => ?_, fun hnone => ?_⟩
    · rw [ownedHandlesOfAll_eq_nil (hparams hnone)] at hcallee
      exact (Except.ok.inj hcallee).symm
    · rw [ownedHandlesOfAll_eq_nil (hresults hnone)] at hcaller
      exact (Except.ok.inj hcaller).symm

/-- Trees of borrowed files, which contain themselves through a list, and a function that takes a
tree and returns a number. -/
def fileTree : Abi where
  arena := ⟨#[.resource { name := { name := "file" } }, .borrow ⟨0⟩, .list ⟨3⟩,
    .variant { name := "tree" } [("leaf", some ⟨1⟩), ("node", some ⟨2⟩)], .scalar .u32,
    .function { params := [("tree", ⟨3⟩)], results := [⟨4⟩] }]⟩

/-- The signature of the function on trees. -/
def fileTreeSignature : Signature where
  paramTypes := [⟨3⟩]
  resultTypes := [⟨4⟩]
  flatParams := [.i32, .i32, .i32]
  flatResults := [.i32]
  coreParams := [.i32, .i32, .i32]
  coreResults := [.i32]
  paramArea := none
  returnArea := none
  needsPostReturn := false
  paramsTransferHandles := false
  resultsTransferHandles := false

/-- No tree has handles of its own, however deep it is, the number of its leaves is returned without
a block, and no handle moves in a call with a tree of two files. -/
theorem static_answers_sound_fileTree :
    (∀ v, fileTree.ownedHandles ⟨3⟩ v = .ok []) ∧
    (∀ v m, (runOn (fileTree.lowerFlat ⟨4⟩ v) m).2 = m) ∧
    (∀ results m, (runOn (fileTree.lowerResults fileTreeSignature {} results) m).2.outline =
      m.outline) ∧
    ∃ outcome m', runOn (fileTree.call fileTreeSignature
        [.variant "node" (some (.list [.variant "leaf" (some (.borrow 7)),
          .variant "node" (some (.list [.variant "leaf" (some (.borrow 8))]))]))]
        fun _ => .ok [.u32 2]) {} = (.ok outcome, m') ∧
      outcome.movedToCallee = [] ∧ outcome.movedToCaller = [] := by
  have hsig : fileTree.functionSignature ⟨5⟩ = .ok fileTreeSignature := rfl
  have hcall : runOn (fileTree.call fileTreeSignature
      [.variant "node" (some (.list [.variant "leaf" (some (.borrow 7)),
        .variant "node" (some (.list [.variant "leaf" (some (.borrow 8))]))]))]
      fun _ => .ok [.u32 2]) {} =
    (.ok ⟨[.u32 2], [], []⟩,
      ⟨[0, 0, 0, 0, 0, 0, 0, 0, 7, 0, 0, 0, 0, 0, 0, 0, 1, 0, 0, 0, 28, 0, 0, 0, 1, 0, 0, 0,
        0, 0, 0, 0, 8, 0, 0, 0, 0, 0, 0, 0], [⟨28, 12, 4, false⟩, ⟨4, 24, 4, false⟩]⟩) := by
    cbv
  obtain ⟨hmemory, hhandles, hcalls⟩ := static_answers_sound fileTree
  obtain ⟨hresults, hmoved⟩ := hcalls _ _ hsig
  refine ⟨hhandles _ rfl, fun v m => (hmemory _ rfl v m).1, hresults rfl {}, _, _, hcall, ?_⟩
  exact ⟨(hmoved _ _ _ _ _ hcall).1 rfl, (hmoved _ _ _ _ _ hcall).2 rfl⟩

end Abi

end ComponentAbi
