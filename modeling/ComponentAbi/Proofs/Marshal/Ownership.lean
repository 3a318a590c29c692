import ComponentAbi.Proofs.Marshal.Passing
import ComponentAbi.Proofs.Memory.Settled

/-!
# Calls leak nothing

However a call ends, it ends with the live blocks that it started with, and with every old byte
unchanged (`Abi.call_settles`). A call that fails frees what was handed out during it, whatever was
freed of it already; a call that succeeds has freed all of it, block by block.
-/

namespace ComponentAbi

open Memory MemoryM

variable {lo hi : Nat} {m m' : Memory}

/-- A guarded step that fails has leaked nothing. -/
theorem MemoryM.Confined.liveBlocks_guarded {α : Type} {x : MemoryM α} {e : AbiError}
    (h : Confined lo hi m x) (hr : runOn (guarded x) m = (.error e, m')) :
    m'.liveBlocks = m.liveBlocks := by
  obtain ⟨bs, m₁, hg, rfl⟩ := h.runOn_guarded hr
  exact hg.liveBlocks_releaseAll

namespace Abi

variable {abi : Abi} {sig : Signature} {values : List Value} {ids : List TypeId}

/-! ### Steps that fail -/

theorem confined_lowerInto {area : Option Layout}
    (ha : ∀ l, area = some l → abi.sequenceLayout ids = .ok l) :
    Confined 0 0 m (abi.lowerInto ids values area) := by
  cases area with
  | none => exact confined_lowerAll
  | some area =>
    have hlayout : (abi.tupleOf ids).layout = .ok area := ha area rfl
    refine Confined.bind_alloc (Shape.align_pos hlayout) fun start m' => ?_
    exact (confined_storeFields hlayout start).bind fun _ _ _ _ => confined_pure _

theorem confined_reserve {area : Option Layout}
    (ha : ∀ l, area = some l → abi.sequenceLayout ids = .ok l) :
    Confined 0 0 m (reserve area) := by
  obtain ⟨start?, m', ret, hrun, hg, -⟩ := runOn_reserve ids ha m
  exact ⟨ret, hrun ▸ hg⟩

theorem confined_lowerArguments (hs : Signed abi sig) :
    Confined 0 0 m (do
      let words ← abi.lowerInto sig.paramTypes values sig.paramArea
      let start? ← reserve sig.returnArea
      return (⟨words ++ (start?.map Word.ofNat).toList, start?⟩ : LoweredCall)) :=
  (confined_lowerInto hs.paramArea).bind fun _ _ _ _ =>
    (confined_reserve hs.returnArea).bind fun _ _ _ _ => confined_pure _

/-- Lowering the arguments leaks nothing if it fails. -/
theorem lowerParams_error {e : AbiError} (hs : Signed abi sig)
    (h : runOn (abi.lowerParams sig values) m = (.error e, m')) :
    ∃ bs m₁, Grows 0 0 bs m m₁ ∧ m' = m₁.releaseAll (Block.starts bs) := by
  rw [lowerParams_eq] at h
  cases hcheck : checkCount "arguments" sig.paramTypes.length values.length with
  | error e' =>
    rw [hcheck] at h
    cases h
    exact ⟨[], m, Grows.refl m, (releaseAll_nil m).symm⟩
  | ok u =>
    rw [runOn_bind_liftM hcheck] at h
    exact (confined_lowerArguments hs).runOn_guarded h

/-- The area is the one that is ready for the results. -/
theorem confined_lowerBack {start? : Option Nat} {ret : List Block} (hs : Signed abi sig)
    (hr : Reserved m sig.returnArea start? ret) :
    Confined (reservedBytes sig.returnArea start?).1 (reservedBytes sig.returnArea start?).2 m
      (abi.lowerBack sig.resultTypes values start?) := by
  have hlayout := hs.returnArea
  generalize sig.returnArea = area at hr hlayout
  cases hr with
  | none => exact confined_lowerAll
  | some => exact (confined_storeFields (hlayout _ rfl) _).bind fun _ _ _ _ => confined_pure _

/-- Lowering results fails before it starts, or is undone. -/
theorem lowerResults_error {e : AbiError} {call : LoweredCall}
    (h : runOn (abi.lowerResults sig call values) m = (.error e, m')) :
    m' = m ∨ runOn (guarded (abi.lowerBack sig.resultTypes values call.returnArea)) m =
      (.error e, m') := by
  rw [lowerResults_eq] at h
  cases hcheck : checkCount "results" sig.resultTypes.length values.length with
  | error e' =>
    rw [hcheck] at h
    cases h
    exact .inl rfl
  | ok u =>
    rw [runOn_bind_liftM hcheck] at h
    exact .inr h

/-! ### Steps that succeed -/

theorem length_eq_of_checkCount {what : String} {expected got : Nat} {u : Unit}
    (h : checkCount what expected got = .ok u) : expected = got := by
  rw [checkCount] at h
  split at h
  · assumption
  · cases h

/-- Only arguments that can be read are passed. -/
theorem nativeAll_of_lowerParams {call : LoweredCall}
    (h : runOn (abi.lowerParams sig values) m = (.ok call, m')) :
    sig.paramTypes.length = values.length ∧
      ∃ ns, abi.nativeAll sig.paramTypes values = .ok ns := by
  rw [lowerParams_eq] at h
  obtain ⟨u, hcheck, h⟩ := (Succeeds.of_runOn h).bind_liftM
  refine ⟨length_eq_of_checkCount hcheck, ?_⟩
  obtain ⟨m₁, a, m₂, h⟩ := h
  have hlower := (Succeeds.of_runOn (runOn_of_guarded_ok h)).bind.1
  generalize sig.paramArea = area at hlower
  cases area with
  | none => exact nativeAll_of_lowerAll hlower
  | some area =>
    obtain ⟨-, start, hlower⟩ := hlower.bind
    exact nativeAll_of_storeFields hlower.bind.1

/-- Only results that can be read are passed. -/
theorem nativeAll_of_lowerResults {call : LoweredCall} {ws : List Word}
    (h : runOn (abi.lowerResults sig call values) m = (.ok ws, m')) :
    sig.resultTypes.length = values.length ∧
      ∃ ns, abi.nativeAll sig.resultTypes values = .ok ns := by
  obtain ⟨u, hcheck, h⟩ := (Succeeds.of_runOn h).bind_liftM
  refine ⟨length_eq_of_checkCount hcheck, ?_⟩
  obtain ⟨m₁, a, m₂, h⟩ := h
  have hlower := Succeeds.of_runOn (runOn_of_guarded_ok h)
  generalize call.returnArea = start? at hlower
  cases start? with
  | none => exact nativeAll_of_lowerAll hlower
  | some start => exact nativeAll_of_storeFields hlower.bind.1

/-! ### Both halves of a call -/

/-- What there is when the arguments have crossed: if they did, nothing but the area for the
results. -/
inductive ArgumentsCrossed (sig : Signature) (m : Memory) :
    Except AbiError (LoweredCall × List Value) × Memory → Prop where
  | failed {e : AbiError} {news : List Block} {m' : Memory} (left : Extends m news m') :
    ArgumentsCrossed sig m (.error e, m')
  | crossed {lowered : LoweredCall} {params : List Value} {m₁ : Memory} {bs ret : List Block}
    (grown : Grows 0 0 (bs ++ ret) m m₁)
    (reserved : Reserved m₁ sig.returnArea lowered.returnArea ret) :
    ArgumentsCrossed sig m (.ok (lowered, params), m₁.releaseAll (Block.starts bs))

theorem argumentsCrossed (hc : abi.arena.CasesFit) (hs : Signed abi sig) (values : List Value)
    (m : Memory) : (runOn (abi.passParams sig values) m).2.size < UInt32.size →
      ArgumentsCrossed sig m (runOn (abi.passParams sig values) m) := by
  refine runOn_bind_cases
    (Q := fun o => o.2.size < UInt32.size → ArgumentsCrossed sig m o) ?_ ?_
  · intro e m' h _
    obtain ⟨bs, m₁, hg, rfl⟩ := lowerParams_error hs h
    exact .failed (hg.extends.releaseAll fun p => Block.mem_starts_reverse.2)
  · intro lowered m₁ h
    obtain ⟨hl, ns, hn⟩ := nativeAll_of_lowerParams h
    obtain ⟨ws, start?, m₁', bs, ret, hrun, hlen, hg, hreserved, hcrossed⟩ :=
      runOn_lowerParams hc hs hl hn m
    cases h.symm.trans hrun
    have hsize := neverShrinks_liftParams abi sig
      (ws ++ (start?.map Word.ofNat).toList) m₁
    have htaken := fun hlt => (runOn_liftParams hs (fits_nativeAll hc hl hn) (hcrossed hlt)
      hg.owns.left (by
        have := length_le_of_grows hg
        rw [List.length_append] at this
        omega) hlen).1
    refine runOn_bind_cases
      (Q := fun o => o.2.size < UInt32.size → ArgumentsCrossed sig m o) ?_ ?_
    · intro e m₂ hlift hlt
      rw [hlift] at hsize htaken
      obtain ⟨ps, hps, he⟩ := (htaken (Nat.lt_of_le_of_lt hsize hlt)).freed
      obtain rfl : m₂ = m₁.releaseAll ps := he
      refine .failed (hg.extends.releaseAll fun p hp => ?_)
      exact Block.mem_starts_reverse.2 (Block.mem_starts_append.2 (.inl (hps p hp)))
    · intro params m₂ hlift hlt
      rw [hlift] at hsize htaken
      obtain rfl : m₂ = m₁.releaseAll (Block.starts bs) :=
        (htaken (Nat.lt_of_le_of_lt hsize hlt)).all params rfl
      exact .crossed hg hreserved

/-- What there is when the results have crossed: some of the blocks that were there for them were
freed, and all of them if the caller got the results. -/
inductive ResultsCrossed (sig : Signature) (lowered : LoweredCall) (ret : List Block) (m : Memory) :
    Except AbiError (List Value) × Memory → Prop where
  | mk {bs : List Block} {m₁ : Memory} {r : Except AbiError (List Value)} {ps : List Nat}
    (grown : Grows (reservedBytes sig.returnArea lowered.returnArea).1
      (reservedBytes sig.returnArea lowered.returnArea).2 bs m m₁)
    (freed : ∀ p ∈ ps, p ∈ Block.starts (bs ++ ret))
    (all : ∀ vs, r = .ok vs → ps = Block.starts (bs ++ ret)) :
    ResultsCrossed sig lowered ret m (r, m₁.releaseAll ps)

theorem ResultsCrossed.of_error {lowered : LoweredCall} {bs ret : List Block} {e : AbiError}
    (hg : Grows (reservedBytes sig.returnArea lowered.returnArea).1
      (reservedBytes sig.returnArea lowered.returnArea).2 bs m m') :
    ResultsCrossed sig lowered ret m (.error e, m') := by
  have h : ResultsCrossed sig lowered ret m (.error e, m'.releaseAll []) :=
    .mk hg (fun _ hp => absurd hp List.not_mem_nil) fun _ he => by cases he
  rwa [releaseAll_nil] at h

theorem resultsCrossed {lowered : LoweredCall} {ret : List Block} (hc : abi.arena.CasesFit)
    (hs : Signed abi sig) (hr : Reserved m sig.returnArea lowered.returnArea ret) (ho : m.Owns ret)
    (hret : ∀ b ∈ ret, b.start < m.size) :
    (runOn (abi.passResults sig lowered values) m).2.size < UInt32.size →
      ResultsCrossed sig lowered ret m (runOn (abi.passResults sig lowered values) m) := by
  refine runOn_bind_cases
    (Q := fun o => o.2.size < UInt32.size → ResultsCrossed sig lowered ret m o) ?_ ?_
  · intro e m' h _
    rcases lowerResults_error h with rfl | h
    · exact .of_error (Grows.refl m')
    · obtain ⟨bs, m₁, hg, rfl⟩ := (confined_lowerBack hs hr).runOn_guarded h
      refine .mk hg (fun p hp => ?_) fun _ he => by cases he
      exact Block.mem_starts_append.2 (.inl hp)
  · intro ws m₁ h
    obtain ⟨hl, ns, hn⟩ := nativeAll_of_lowerResults h
    obtain ⟨ws', m₁', bs, hrun, hg, hreturned⟩ := runOn_lowerResults hc hs hl hn hr
    cases h.symm.trans hrun
    have hlifted := runOn_liftResults_snd abi sig lowered ws m₁
    refine runOn_bind_cases
      (Q := fun o => o.2.size < UInt32.size → ResultsCrossed sig lowered ret m o) ?_ ?_
    · intro e m₂ hlift _
      rw [hlift] at hlifted
      obtain rfl : m₂ = m₁ := hlifted
      exact .of_error hg
    · intro vs m₂ hlift
      rw [hlift] at hlifted
      obtain rfl : m₂ = m₁ := hlifted
      have hsize := neverShrinks_postReturn abi sig lowered ws m₂
      have hpost := fun hlt => runOn_postReturn hs (fits_nativeAll hc hl hn) (hreturned hlt) hr
        (hg.owns_append ho hret) (length_le_of_grows hg)
      refine runOn_bind_cases
        (Q := fun o => o.2.size < UInt32.size → ResultsCrossed sig lowered ret m o) ?_ ?_
      · intro e m₃ hfree hlt
        rw [hfree] at hsize hpost
        cases hpost (Nat.lt_of_le_of_lt hsize hlt)
      · intro u m₃ hfree hlt
        rw [hfree] at hsize hpost
        cases hpost (Nat.lt_of_le_of_lt hsize hlt)
        exact .mk hg (fun _ hp => hp) fun _ _ => rfl

/-! ### Whole calls -/

/-- What there is when a call is over, before what is left of it is freed: if it succeeded, nothing
is left. -/
inductive CallOver (m : Memory) : Except AbiError CallOutcome × Memory → Prop where
  | failed {e : AbiError} {news : List Block} {m' : Memory} (left : Extends m news m') :
    CallOver m (.error e, m')
  | done {outcome : CallOutcome} {m' : Memory} (settled : Settled m m') :
    CallOver m (.ok outcome, m')

/-- The area for results is new. -/
theorem reservedBytes_new {area : Option Layout} {start? : Option Nat} {bs ret : List Block}
    (hg : Grows 0 0 (bs ++ ret) m m') (hr : Reserved m' area start? ret) :
    m.size ≤ (reservedBytes area start?).1 ∨
      (reservedBytes area start?).2 ≤ (reservedBytes area start?).1 := by
  cases hr with
  | none => exact .inr (Nat.le_refl 0)
  | @some area start covers start_lt =>
    by_cases hz : area.size = 0
    · exact .inr (Nat.le_of_eq (by rw [reservedBytes, hz]; rfl))
    · rw [Block.ofArea_of_pos (Nat.pos_of_ne_zero hz)] at hg
      exact .inl (hg.packed.of_mem (List.mem_append_right bs (List.mem_singleton_self _))).1

/-- After the arguments have crossed, the results cross. -/
theorem callOver_answer {lowered : LoweredCall} {bs ret : List Block} {m₁ : Memory}
    (moved : List UInt32) (hc : abi.arena.CasesFit) (hs : Signed abi sig)
    (hg : Grows 0 0 (bs ++ ret) m m₁) (hr : Reserved m₁ sig.returnArea lowered.returnArea ret)
    (hlt : (runOn (abi.answer sig lowered moved (.ok values))
      (m₁.releaseAll (Block.starts bs))).2.size < UInt32.size) :
    CallOver m (runOn (abi.answer sig lowered moved (.ok values))
      (m₁.releaseAll (Block.starts bs))) := by
  have hleft : Extends m ((bs ++ ret).reverse.map (Block.releaseIn (Block.starts bs)))
      (m₁.releaseAll (Block.starts bs)) :=
    hg.extends.releaseAll fun p hp =>
      Block.mem_starts_reverse.2 (Block.mem_starts_append.2 (.inl hp))
  have hr' : Reserved (m₁.releaseAll (Block.starts bs)) sig.returnArea lowered.returnArea ret :=
    hr.mono (Nat.le_refl _)
  have hret : ∀ b ∈ ret, b.start < m₁.size := fun b hb => by
    obtain ⟨-, hend, hheld⟩ := hg.packed.of_mem (List.mem_append_right bs hb)
    have := hheld.size_pos
    omega
  have hcrossed := resultsCrossed hc hs hr' hg.owns.after hret (Nat.lt_of_le_of_lt (size_le_bind
    (fun _ => (neverShrinks_liftM _).bind fun _ => neverShrinks_pure _) _) hlt)
  have hnew := reservedBytes_new hg hr
  have hstarts : ∀ bs', ∀ p ∈ Block.starts (bs' ++ ret), p ∈ Block.starts
      (bs'.reverse ++ (bs ++ ret).reverse.map (Block.releaseIn (Block.starts bs))) := by
    intro bs' p hp
    rw [Block.mem_starts_append] at hp
    rw [Block.mem_starts_append, Block.starts_map_releaseIn, Block.mem_starts_reverse,
      Block.mem_starts_reverse, Block.mem_starts_append]
    exact hp.imp_right .inr
  -- What is not among the results and the area was a block of the arguments.
  have hdead : ∀ bs', ∀ b ∈ bs'.reverse ++
      (bs ++ ret).reverse.map (Block.releaseIn (Block.starts bs)),
        b.live = false ∨ b.start ∈ Block.starts (bs' ++ ret) := by
    intro bs' b hb
    rw [Block.mem_starts_append]
    rcases List.mem_append.1 hb with hb | hb
    · exact .inr (.inl (List.mem_map_of_mem (List.mem_reverse.1 hb)))
    · obtain ⟨c, hc, rfl⟩ := List.mem_map.1 hb
      rw [Block.start_releaseIn]
      rcases List.mem_append.1 (List.mem_reverse.1 hc) with hc | hc
      · exact .inl (Block.dead_releaseIn (.inr (List.mem_map_of_mem hc)))
      · exact .inr (.inr (List.mem_map_of_mem hc))
  rw [answer, runOn_bind_liftM rfl]
  refine runOn_bind_cases (Q := CallOver m) (fun e m' h => ?_) fun results m' h => ?_
  · rw [h] at hcrossed
    cases hcrossed with
    | mk grown freed all =>
      refine .failed ((hleft.grows grown hnew).releaseAll fun p hp => ?_)
      exact hstarts _ p (freed p hp)
  · rw [h] at hcrossed
    cases hcrossed with
    | mk grown freed all =>
      obtain rfl := all results rfl
      rename_i bs' m₃
      have hover := (hleft.grows grown hnew).releaseAll (hstarts bs')
      cases hmoved : abi.ownedHandlesOfAll sig.resultTypes results with
      | error e => exact .failed hover
      | ok handles =>
        refine .done (hover.settled fun b hb => ?_)
        obtain ⟨c, hc, rfl⟩ := List.mem_map.1 hb
        exact Block.dead_releaseIn (hdead bs' c hc)

/-- Up to where what is left is freed, a call that succeeds has freed everything. -/
theorem callOver (hc : abi.arena.CasesFit) (hs : Signed abi sig) (values : List Value)
    (moved : List UInt32) (callee : List Value → Except AbiError (List Value)) (m : Memory)
    (hlt : (runOn (do
      let crossed ← abi.passParams sig values
      abi.answer sig crossed.1 moved (callee crossed.2)) m).2.size < UInt32.size) :
    CallOver m (runOn (do
      let crossed ← abi.passParams sig values
      abi.answer sig crossed.1 moved (callee crossed.2)) m) := by
  have hcrossed := argumentsCrossed hc hs values m (Nat.lt_of_le_of_lt
    (size_le_bind (fun _ => neverShrinks_answer abi _ _ _ _) m) hlt)
  revert hlt
  refine runOn_bind_cases (Q := fun o => o.2.size < UInt32.size → CallOver m o) ?_ ?_
  · intro e m' h _
    rw [h] at hcrossed
    cases hcrossed with
    | failed left => exact .failed left
  · intro crossed m' h hlt
    rw [h] at hcrossed
    cases hcrossed with
    | @crossed lowered params m₁ bs ret hg hr =>
      cases hcallee : callee params with
      | error e =>
        exact .failed (hg.extends.releaseAll fun p hp =>
          Block.mem_starts_reverse.2 (Block.mem_starts_append.2 (.inl hp)))
      | ok returned =>
        change (runOn (abi.answer sig lowered moved (callee params)) _).2.size < _ at hlt
        rw [hcallee] at hlt
        exact callOver_answer moved hc hs hg hr hlt

theorem settled_call {id : TypeId} (hc : abi.arena.CasesFit)
    (hsig : abi.functionSignature id = .ok sig) (args : List Value)
    (callee : List Value → Except AbiError (List Value)) (m : Memory)
    (hm : (runOn (abi.call sig args callee) m).2.size < UInt32.size) :
    Settled m (runOn (abi.call sig args callee) m).2 := by
  rw [call_eq, runOn_guarded] at hm ⊢
  cases hmoved : abi.ownedHandlesOfAll sig.paramTypes args with
  | error e => exact (Extends.refl m).settled_releaseSince
  | ok moved =>
    rw [hmoved, runOn_bind_liftM rfl] at hm
    rw [runOn_bind_liftM rfl]
    have hover := callOver hc (signed_of_functionSignature hsig) args moved callee m
    cases hbody : runOn (do
      let crossed ← abi.passParams sig args
      abi.answer sig crossed.1 moved (callee crossed.2)) m with
    | mk r m' =>
      rw [hbody] at hm hover
      cases r with
      | error e =>
        cases hover hm with
        | failed left => exact left.settled_releaseSince
      | ok outcome =>
        cases hover hm with
        | done settled => exact settled

/-- However a call ends, it ends with the live blocks that it started with, every old byte is as it
was, and as much was freed as was handed out. Lowering alone leaves the live blocks as they were if
it fails. -/
theorem call_leaks_nothing {id : TypeId} (hc : abi.arena.CasesFit)
    (hsig : abi.functionSignature id = .ok sig) (m : Memory) :
    (∀ args callee, (runOn (abi.call sig args callee) m).2.size < UInt32.size →
      (runOn (abi.call sig args callee) m).2.liveBlocks = m.liveBlocks ∧
      m.bytes <+: (runOn (abi.call sig args callee) m).2.bytes ∧
      ∃ count bytes,
        (runOn (abi.call sig args callee) m).2.allocations = m.allocations + count ∧
        (runOn (abi.call sig args callee) m).2.frees = m.frees + count ∧
        (runOn (abi.call sig args callee) m).2.bytesAllocated = m.bytesAllocated + bytes ∧
        (runOn (abi.call sig args callee) m).2.bytesFreed = m.bytesFreed + bytes) ∧
    (∀ args e m', runOn (abi.lowerParams sig args) m = (.error e, m') →
      m'.liveBlocks = m.liveBlocks) ∧
    ∀ call results e m', runOn (abi.lowerResults sig call results) m = (.error e, m') →
      m'.liveBlocks = m.liveBlocks := by
  refine ⟨fun args callee hm => ?_, fun args e m' h => ?_, fun call results e m' h => ?_⟩
  · have h := settled_call hc hsig args callee m hm
    exact ⟨h.liveBlocks, h.bytes, h.counters⟩
  · obtain ⟨bs, m₁, hg, rfl⟩ := lowerParams_error (signed_of_functionSignature hsig) h
    exact hg.liveBlocks_releaseAll
  · rcases lowerResults_error h with rfl | h
    · rfl
    · obtain ⟨lo, hi, hback⟩ :=
        exists_confined_lowerBack abi sig.resultTypes results call.returnArea m
      exact hback.liveBlocks_guarded h

/-- A call that answers more bytes than it was given, from a memory with one live block. -/
theorem call_leaks_nothing_packet :
    (runOn (packet.call packetSignature [shuffledPacket] fun _ =>
      .ok [.list [.u8 1, .u8 2, .u8 3]]) ⟨[0, 5], [⟨1, 1, 1, true⟩]⟩).2.size < UInt32.size ∧
    (runOn (packet.call packetSignature [shuffledPacket] fun _ =>
      .ok [.list [.u8 1, .u8 2, .u8 3]]) ⟨[0, 5], [⟨1, 1, 1, true⟩]⟩).2.liveBlocks =
        [⟨1, 1, 1, true⟩] := by
  have hlt : (runOn (packet.call packetSignature [shuffledPacket] fun _ =>
      .ok [.list [.u8 1, .u8 2, .u8 3]]) ⟨[0, 5], [⟨1, 1, 1, true⟩]⟩).2.size < UInt32.size := by
    decide +kernel
  exact ⟨hlt, ((call_leaks_nothing (by decide) functionSignature_packet _).1 _ _ hlt).1⟩

end Abi

end ComponentAbi
