import ComponentAbi.Proofs.Marshal.Handles
import ComponentAbi.Proofs.Marshal.Passing

/-!
# Calls are transparent

A call whose arguments and results can be lowered succeeds: the callee gets the normal forms of the
arguments, in their order, and the caller those of the results (`Abi.call_transparent`). Which of
the values go through words and which through an area makes no difference.
-/

namespace ComponentAbi

namespace Abi

open Memory MemoryM

variable {abi : Abi} {sig : Signature} {ids : List TypeId} {values : List Value}
  {ns : List Native} {m : Memory}

/-- There is a value for each type, and each can be lowered. -/
structure Lowerable (abi : Abi) (ids : List TypeId) (values : List Value) : Prop where
  /-- There are as many values as types. -/
  length : ids.length = values.length
  /-- Each value is lowered from some memory. -/
  succeeds : ∀ entry ∈ ids.zip values, (abi.lowerFlat entry.1 entry.2).Succeeds
  /-- No list in a value has items that take up no room. -/
  sized : ∀ entry ∈ ids.zip values, abi.ItemsSized entry.1 entry.2
  /-- The items that an empty list does not have are of a type of fewer than `2 ^ 32` bytes. -/
  strides : ∀ entry ∈ ids.zip values, abi.StridesFit entry.1 entry.2

/-- There is a value for each type, each can be read, and the lists in them are read from a memory
of `room` bytes. -/
structure Deliverable (abi : Abi) (room : Nat) (ids : List TypeId) (values : List Value) :
    Prop where
  /-- There are as many values as types. -/
  length : ids.length = values.length
  /-- Each value is one of its type. -/
  typed : ∀ entry ∈ ids.zip values, ∃ n, abi.native entry.1 entry.2 = .ok n
  /-- Lists whose items take up no room are shorter than the memory, and no empty list is of items
  that are too large for a word. -/
  roomy : ∀ entry ∈ ids.zip values, abi.ListsRoomy room entry.1 entry.2

variable {room : Nat}

theorem Lowerable.native (h : abi.Lowerable ids values) :
    ∃ ns, abi.nativeAll ids values = .ok ns :=
  Except.mapM_eq_ok_of_forall fun entry hm => native_of_lowerWithin (h.succeeds entry hm)

theorem Deliverable.native (h : abi.Deliverable room ids values) :
    ∃ ns, abi.nativeAll ids values = .ok ns :=
  Except.mapM_eq_ok_of_forall h.typed

/-- The callee gets the normal forms of the arguments, and nothing but the area for the results is
left of them. -/
theorem runOn_passParams (hc : abi.arena.CasesFit) (hs : Signed abi sig)
    (h : abi.Deliverable (runOn (abi.lowerParams sig values) m).2.size sig.paramTypes values)
    (hlt : (runOn (abi.passParams sig values) m).2.size < UInt32.size) :
    ∃ lowered m₁ bs ret,
      runOn (abi.passParams sig values) m =
        (.ok (lowered, abi.normalizeAll sig.paramTypes values),
          m₁.releaseAll (Block.starts bs)) ∧
      Grows 0 0 (bs ++ ret) m m₁ ∧ Reserved m₁ sig.returnArea lowered.returnArea ret := by
  obtain ⟨ns, hn⟩ := h.native
  obtain ⟨ws, start?, m₁, bs, ret, hrun, hlen, hg, hreserved, hcrossed⟩ :=
    runOn_lowerParams hc hs h.length hn m
  have hsize := size_le_bind (fun lowered : LoweredCall =>
    (neverShrinks_liftParams abi sig lowered.coreArgs).bind fun params =>
      neverShrinks_pure (lowered, params)) m (x := abi.lowerParams sig values)
  have hroomy := everyListRow_nativeAll hn h.roomy
  rw [hrun] at hsize hroomy
  have hroom := length_le_of_grows hg
  rw [List.length_append] at hroom
  have hlift := (runOn_liftParams hs (fits_nativeAll hc h.length hn)
    (hcrossed (Nat.lt_of_le_of_lt hsize hlt)) hg.owns.left (by omega) hlen).2 hroomy
  rw [valueRow_nativeAll hc hn] at hlift
  refine ⟨⟨ws ++ (start?.map Word.ofNat).toList, start?⟩, m₁, bs, ret, ?_, hg, hreserved⟩
  exact (runOn_bind_of_ok hrun _).trans (runOn_bind_of_ok hlift _)

/-- The caller gets the normal forms of the results. -/
theorem runOn_passResults {lowered : LoweredCall} {ret : List Block} (hc : abi.arena.CasesFit)
    (hs : Signed abi sig)
    (h : abi.Deliverable (runOn (abi.lowerResults sig lowered values) m).2.size sig.resultTypes
      values)
    (hr : Reserved m sig.returnArea lowered.returnArea ret) (ho : m.Owns ret)
    (hret : ∀ b ∈ ret, b.start < m.size)
    (hlt : (runOn (abi.passResults sig lowered values) m).2.size < UInt32.size) :
    ∃ m', runOn (abi.passResults sig lowered values) m =
      (.ok (abi.normalizeAll sig.resultTypes values), m') := by
  obtain ⟨ns, hn⟩ := h.native
  have hf := fits_nativeAll hc h.length hn
  obtain ⟨ws, m₁, bs, hrun, hg, hreturned⟩ := runOn_lowerResults hc hs h.length hn hr
  have hsize := size_le_bind (neverShrinks_receive abi sig lowered) m
    (x := abi.lowerResults sig lowered values)
  have hroomy := everyListRow_nativeAll hn h.roomy
  rw [hrun] at hsize hroomy
  have hreturned := hreturned (Nat.lt_of_le_of_lt hsize hlt)
  have hroom := length_le_of_grows hg
  have hlift := runOn_liftResults hs hf hreturned hroom hroomy
  rw [valueRow_nativeAll hc hn] at hlift
  have hpost := runOn_postReturn hs hf hreturned hr (hg.owns_append ho hret) hroom
  refine ⟨m₁.releaseAll (Block.starts (bs ++ ret)), (runOn_bind_of_ok hrun _).trans ?_⟩
  exact (runOn_bind_of_ok hlift _).trans (runOn_bind_of_ok hpost _)

/-- The room that the lists in the arguments need is asked of the memory that lowering the arguments
leaves, and that of the results of the one that lowering the results leaves. -/
theorem runOn_call {args results : List Value}
    {callee : List Value → Except AbiError (List Value)} (hc : abi.arena.CasesFit)
    (hs : Signed abi sig)
    (hargs : abi.Deliverable (runOn (abi.lowerParams sig args) m).2.size sig.paramTypes args)
    (hcallee : callee (abi.normalizeAll sig.paramTypes args) = .ok results)
    (hresults : ∀ lowered params m₁,
      runOn (abi.passParams sig args) m = (.ok (lowered, params), m₁) →
      abi.Deliverable (runOn (abi.lowerResults sig lowered results) m₁).2.size sig.resultTypes
        results)
    (hm : (runOn (abi.call sig args callee) m).2.size < UInt32.size) :
    (∃ lowered m', runOn (abi.passParams sig args) m =
      (.ok (lowered, abi.normalizeAll sig.paramTypes args), m')) ∧
    ∃ outcome m', runOn (abi.call sig args callee) m = (.ok outcome, m') ∧
      outcome.results = abi.normalizeAll sig.resultTypes results := by
  obtain ⟨ns, hn⟩ := hargs.native
  obtain ⟨moved, hmoved⟩ := ownedHandlesOfAll_of_native hn
  rw [call_eq, size_guarded, runOn_bind_liftM hmoved] at hm
  have hsize := size_le_bind (fun crossed : LoweredCall × List Value =>
    neverShrinks_answer abi sig crossed.1 moved (callee crossed.2)) m (x := abi.passParams sig args)
  obtain ⟨lowered, m₁, bs, ret, hparams, hg, hr⟩ :=
    runOn_passParams hc hs hargs (Nat.lt_of_le_of_lt hsize hm)
  have hresults := hresults _ _ _ hparams
  obtain ⟨ns', hn'⟩ := hresults.native
  obtain ⟨received, hreceived⟩ := ownedHandlesOfAll_normalizeAll hn'
  rw [runOn_bind_of_ok hparams, hcallee, answer, runOn_bind_liftM rfl] at hm
  have hsize := size_le_bind (fun results : List Value => (neverShrinks_liftM
    (abi.ownedHandlesOfAll sig.resultTypes results)).bind fun received =>
      neverShrinks_pure (⟨results, moved, received⟩ : CallOutcome))
    (m₁.releaseAll (Block.starts bs)) (x := abi.passResults sig lowered results)
  have hret : ∀ b ∈ ret, b.start < m₁.size := fun b hb => by
    obtain ⟨-, hend, hheld⟩ := hg.packed.of_mem (List.mem_append_right bs hb)
    have := hheld.size_pos
    omega
  have hr' : Reserved (m₁.releaseAll (Block.starts bs)) sig.returnArea lowered.returnArea ret :=
    hr.mono (Nat.le_refl _)
  obtain ⟨m', hback⟩ := runOn_passResults hc hs hresults hr' hg.owns.after hret
    (Nat.lt_of_le_of_lt hsize hm)
  refine ⟨⟨lowered, _, hparams⟩, ⟨_, moved, received⟩, m', ?_, rfl⟩
  rw [call_eq]
  refine runOn_guarded_of_ok ((runOn_bind_liftM hmoved _ m).trans ?_)
  refine (runOn_bind_of_ok hparams _).trans ?_
  rw [hcallee, answer, runOn_bind_liftM rfl, runOn_bind_of_ok hback, runOn_bind_liftM hreceived]
  rfl

end Abi

end ComponentAbi
