import ComponentAbi.Proofs.Marshal.Rows
import ComponentAbi.Proofs.Shape.Search

/-!
# The steps of a call

What each step of a call does, for values that lower: the caller passes the arguments
(`Abi.runOn_lowerParams`), the callee takes them in (`Abi.runOn_liftParams`) and passes its results
(`Abi.runOn_lowerResults`), and the caller reads them (`Abi.runOn_liftResults`) and frees what is
left (`Abi.runOn_postReturn`).

Values cross as words or in an area, and `Crossed` is both. An area for results is handed out before
there are any (`Reserved`), and belongs to the caller all the time.
-/

namespace ComponentAbi

open Memory MemoryM

/-! ### Signatures -/

/-- What a signature says is so of its types. -/
structure Signed (abi : Abi) (sig : Signature) : Prop where
  /-- The words of the parameters. -/
  params : Shape.flattenFields (abi.fieldsOf sig.paramTypes) = .ok sig.flatParams
  /-- The words of the results. -/
  results : Shape.flattenFields (abi.fieldsOf sig.resultTypes) = .ok sig.flatResults
  /-- The area of parameters has room for them. -/
  paramArea : ∀ area, sig.paramArea = some area → abi.sequenceLayout sig.paramTypes = .ok area
  /-- The area of results has room for them. -/
  returnArea : ∀ area, sig.returnArea = some area → abi.sequenceLayout sig.resultTypes = .ok area
  /-- Several results need an area. -/
  single : sig.returnArea = none → sig.resultTypes.length ≤ 1
  /-- An area is passed as one word. -/
  coreParams : sig.coreParams.length =
    (if sig.paramArea.isSome then 1 else sig.flatParams.length) +
      if sig.returnArea.isSome then 1 else 0
  /-- Results that need no area are words. -/
  coreResults : sig.returnArea = none → sig.coreResults = sig.flatResults
  /-- Results in an area are no words. -/
  noCoreResults : sig.returnArea.isSome → sig.coreResults = []
  /-- Results that leave nothing to free own nothing. -/
  ownsNothing : sig.needsPostReturn = false →
    ∀ id ∈ sig.resultTypes, (abi.shape id).ownsMemory = false

theorem ite_bind {α β : Type} {c : Prop} [Decidable c] (x y : Except AbiError α)
    (f : α → Except AbiError β) :
    (if c then x >>= f else y >>= f) = (if c then x else y) >>= f := by
  split <;> rfl

theorem sequenceLayout_of_area {abi : Abi} {ids : List TypeId} {area : Option Layout} {c : Prop}
    [Decidable c] (h : (if c then some <$> abi.sequenceLayout ids else pure none) = .ok area) :
    (area.isSome ↔ c) ∧ ∀ l, area = some l → abi.sequenceLayout ids = .ok l := by
  by_cases hc : c
  · rw [if_pos hc] at h
    obtain ⟨l, hl, rfl⟩ := Except.map_eq_ok.1 h
    exact ⟨iff_of_true rfl hc, fun l' he => by cases he; exact hl⟩
  · rw [if_neg hc] at h
    cases h
    exact ⟨iff_of_false Bool.false_ne_true hc, fun l' he => by cases he⟩

theorem signed_of_signature {abi : Abi} {f : FunctionType} {sig : Signature}
    (h : abi.signature f = .ok sig) : Signed abi sig := by
  obtain ⟨flatParams, hp, h⟩ := Except.bind_eq_ok.1 h
  obtain ⟨flatResults, hr, h⟩ := Except.bind_eq_ok.1 h
  simp only [ite_bind] at h
  obtain ⟨paramArea, hpa, h⟩ := Except.bind_eq_ok.1 h
  obtain ⟨returnArea, hra, h⟩ := Except.bind_eq_ok.1 h
  obtain ⟨facts, hfacts, h⟩ := Except.bind_eq_ok.1 h
  obtain ⟨transfer, -, h⟩ := Except.bind_eq_ok.1 h
  cases h
  obtain ⟨hp₁, hp₂⟩ := sequenceLayout_of_area hpa
  obtain ⟨hr₁, hr₂⟩ := sequenceLayout_of_area hra
  refine ⟨hp, hr, hp₂, hr₂, fun hnone => ?_, ?_, fun hnone => ?_, fun hsome => if_pos (hr₁.1 hsome),
    fun hnone id hm => ?_⟩
  · have hnone : returnArea = none := hnone
    simp only [hnone, Option.isSome_none, Bool.false_eq_true, Bool.or_eq_true, decide_eq_true_eq,
      false_iff, not_or, Nat.not_lt] at hr₁
    exact hr₁.1
  · simp only [hp₁, hr₁]
    split <;> split <;> simp
  · have hnone : returnArea = none := hnone
    rw [hnone] at hr₁
    exact if_neg fun hc => absurd (hr₁.2 hc) Bool.false_ne_true
  · obtain ⟨fact, hfact, hid⟩ := Except.exists_mem_of_mem_mapM hfacts hm
    obtain ⟨deallocates, hdeallocates, hid⟩ := Except.bind_eq_ok.1 hid
    obtain ⟨owns, -, hid⟩ := Except.bind_eq_ok.1 hid
    cases hid
    have hfalse := List.any_eq_false.1 hnone _ hfact
    rw [Bool.not_eq_true] at hfalse
    exact Abi.not_ownsMemory_of_needsDeallocate (hfalse ▸ hdeallocates)

theorem signed_of_functionSignature {abi : Abi} {id : TypeId} {sig : Signature}
    (h : abi.functionSignature id = .ok sig) : Signed abi sig := by
  obtain ⟨⟨resolved, node⟩, -, h⟩ := Except.bind_eq_ok.1 h
  cases node with
  | function f => exact signed_of_signature h
  | _ => cases h

/-! ### How values cross -/

/-- The values crossed as words, or in an area whose address is the only word. The blocks are those
that go with them. -/
inductive Crossed (abi : Abi) (m : Memory) (ids : List TypeId) (ns : List Native) :
    Option Layout → List Word → List Block → Prop where
  | words {ws : List Word} {bs : List Block}
    (carried : Carried abi m (abi.tupleOf ids) (.product ns) ws bs) :
    Crossed abi m ids ns none ws bs
  | area {area : Layout} {start : Nat} {bs : List Block} (start_lt : start < UInt32.size)
    (stored : Stored abi m (abi.tupleOf ids) (.product ns) start bs) :
    Crossed abi m ids ns (some area) [Word.ofNat start]
      (Block.ofArea start area.size area.align ++ bs)

/-- The area that the caller has ready for results, and its block. -/
inductive Reserved (m : Memory) : Option Layout → Option Nat → List Block → Prop where
  | none : Reserved m none none []
  | some {area : Layout} {start : Nat} (covers : m.Covers start (start + area.size))
    (start_lt : m.size < UInt32.size → start < UInt32.size) :
    Reserved m (some area) (some start) (Block.ofArea start area.size area.align)

/-- The results crossed as words, or in the area that was ready for them. -/
inductive Returned (abi : Abi) (m : Memory) (ids : List TypeId) (ns : List Native) :
    Option Layout → Option Nat → List Word → List Block → Prop where
  | words {ws : List Word} {bs : List Block}
    (carried : Carried abi m (abi.tupleOf ids) (.product ns) ws bs) :
    Returned abi m ids ns none none ws bs
  | area {area : Layout} {start : Nat} {bs : List Block}
    (stored : Stored abi m (abi.tupleOf ids) (.product ns) start bs) :
    Returned abi m ids ns (some area) (some start) [] bs

/-- The bytes of the area that is ready for results. -/
def reservedBytes : Option Layout → Option Nat → Nat × Nat
  | some area, some start => (start, start + area.size)
  | _, _ => (0, 0)

theorem Reserved.mono {m m' : Memory} {area : Option Layout} {start? : Option Nat}
    {ret : List Block} (h : Reserved m area start? ret) (hm : m.size ≤ m'.size) :
    Reserved m' area start? ret := by
  cases h with
  | none => exact .none
  | some covers start_lt =>
    exact .some (fun hlt => Nat.le_trans (covers hlt) hm)
      fun hlt => start_lt (Nat.lt_of_le_of_lt hm hlt)

theorem Crossed.frame {abi : Abi} {m m' : Memory} {ids : List TypeId} {ns : List Native}
    {area : Option Layout} {ws : List Word} {bs : List Block} (h : Crossed abi m ids ns area ws bs)
    (ha : ∀ l, area = some l → abi.sequenceLayout ids = .ok l) (hb : SameIn bs m m')
    (hm : m.size ≤ m'.size) : Crossed abi m' ids ns area ws bs := by
  cases h with
  | words carried => exact .words (carried.frame hb hm)
  | @area area start bs start_lt stored =>
    have hlayout : (abi.tupleOf ids).layout = .ok area := ha area rfl
    exact .area start_lt (stored.frame hlayout hb.left.area hb.right hm)

theorem Returned.frame {abi : Abi} {m m₀ m' : Memory} {ids : List TypeId} {ns : List Native}
    {area : Option Layout} {start? : Option Nat} {ws : List Word} {bs ret : List Block}
    (h : Returned abi m ids ns area start? ws bs) (hr : Reserved m₀ area start? ret)
    (ha : ∀ l, area = some l → abi.sequenceLayout ids = .ok l) (hb : SameIn (bs ++ ret) m m')
    (hm : m.size ≤ m'.size) : Returned abi m' ids ns area start? ws bs := by
  cases h with
  | words carried => exact .words (carried.frame hb.left hm)
  | @area area start bs stored =>
    have hlayout : (abi.tupleOf ids).layout = .ok area := ha area rfl
    cases hr
    exact .area (stored.frame hlayout hb.right.area hb.left hm)

namespace Abi

variable {abi : Abi} {sig : Signature} {ids : List TypeId} {values : List Value} {ns : List Native}
  {m : Memory}

/-- Lowers values into words, or into an area. -/
def lowerInto (abi : Abi) (ids : List TypeId) (values : List Value) :
    Option Layout → MemoryM (List Word)
  | some area => do
    let start ← MemoryM.alloc area.size area.align
    abi.storeFields ids values start
    return [Word.ofNat start]
  | none => abi.lowerAll ids values

/-- Hands out an area, if there is to be one. -/
def reserve : Option Layout → MemoryM (Option Nat)
  | some area => do return some (← MemoryM.alloc area.size area.align)
  | none => return none

theorem lowerParams_eq (abi : Abi) (sig : Signature) (args : List Value) :
    abi.lowerParams sig args = (do
      liftM (checkCount "arguments" sig.paramTypes.length args.length)
      MemoryM.guarded do
        let words ← abi.lowerInto sig.paramTypes args sig.paramArea
        let start? ← reserve sig.returnArea
        return ⟨words ++ (start?.map Word.ofNat).toList, start?⟩) := by
  rw [lowerParams]
  refine bind_congr fun _ => congrArg guarded ?_
  cases sig.paramArea <;> cases sig.returnArea <;>
    simp [lowerInto, reserve]

/-! ### Passing the arguments -/

theorem runOn_lowerInto {kinds : List CoreType} {area : Option Layout} (hc : abi.arena.CasesFit)
    (hl : ids.length = values.length) (hn : abi.nativeAll ids values = .ok ns)
    (hk : Shape.flattenFields (abi.fieldsOf ids) = .ok kinds)
    (ha : ∀ l, area = some l → abi.sequenceLayout ids = .ok l) (m : Memory) :
    ∃ ws m' bs, runOn (abi.lowerInto ids values area) m = (.ok ws, m') ∧ Grows 0 0 bs m m' ∧
      ws.length = (if area.isSome then 1 else kinds.length) ∧
      (m'.size < UInt32.size → Crossed abi m' ids ns area ws bs) := by
  have hf : Fits abi (abi.tupleOf ids) (.product ns) := .product (fits_nativeAll hc hl hn)
  cases area with
  | none =>
    obtain ⟨ws, m', bs, hrun, hg, hkinds, hcarried⟩ := hf.passes kinds m hk
    rw [← lowerAll_native hn] at hrun
    refine ⟨ws, m', bs, hrun, hg, ?_, fun hlt => .words (hcarried hlt)⟩
    rw [← hkinds, List.length_map]
    rfl
  | some area =>
    have hlayout : (abi.tupleOf ids).layout = .ok area := ha area rfl
    have hpos := Shape.align_pos hlayout
    have hcovers := covers_alloc m area.size hpos
    obtain ⟨m', bs, hrun, hg, hstored⟩ := hf.lands area _ _ hlayout hcovers
    rw [← storeFields_native hn] at hrun
    refine ⟨_, m', _, ?_, hg.of_alloc hpos, rfl, fun hlt => .area ?_ (hstored hlt)⟩
    · rw [lowerInto, runOn_bind_of_ok (runOn_alloc _ _ m), runOn_bind_of_ok hrun]
      rfl
    · exact alloc_start_lt m hpos (Nat.lt_of_le_of_lt hg.size_le hlt)

theorem runOn_reserve (ids : List TypeId) {area : Option Layout}
    (ha : ∀ l, area = some l → abi.sequenceLayout ids = .ok l) (m : Memory) :
    ∃ start? m' ret, runOn (reserve area) m = (.ok start?, m') ∧ Grows 0 0 ret m m' ∧
      start?.isSome = area.isSome ∧ Reserved m' area start? ret := by
  cases area with
  | none => exact ⟨none, m, [], rfl, Grows.refl m, rfl, .none⟩
  | some area =>
    have hlayout : (abi.tupleOf ids).layout = .ok area := ha area rfl
    have hpos := Shape.align_pos hlayout
    exact ⟨_, _, _, rfl, grows_area m area.size hpos, rfl, .some (covers_alloc m area.size hpos)
      (alloc_start_lt m hpos)⟩

/-- The caller passes arguments that can be read, and reserves an area for the results. -/
theorem runOn_lowerParams (hc : abi.arena.CasesFit) (hs : Signed abi sig)
    (hl : sig.paramTypes.length = values.length)
    (hn : abi.nativeAll sig.paramTypes values = .ok ns) (m : Memory) :
    ∃ ws start? m' bs ret,
      runOn (abi.lowerParams sig values) m =
        (.ok ⟨ws ++ (start?.map Word.ofNat).toList, start?⟩, m') ∧
      (ws ++ (start?.map Word.ofNat).toList).length = sig.coreParams.length ∧
      Grows 0 0 (bs ++ ret) m m' ∧ Reserved m' sig.returnArea start? ret ∧
      (m'.size < UInt32.size → Crossed abi m' sig.paramTypes ns sig.paramArea ws bs) := by
  obtain ⟨ws, m₁, bs, hrun₁, hg₁, hlen, hcrossed⟩ :=
    runOn_lowerInto hc hl hn hs.params hs.paramArea m
  obtain ⟨start?, m₂, ret, hrun₂, hg₂, hsome, hreserved⟩ :=
    runOn_reserve sig.resultTypes hs.returnArea m₁
  refine ⟨ws, start?, m₂, bs, ret, ?_, ?_, hg₁.trans hg₂, hreserved, fun hlt => ?_⟩
  · rw [lowerParams_eq]
    refine (runOn_bind_liftM (if_pos hl) _ m).trans (runOn_guarded_of_ok ?_)
    exact (runOn_bind_of_ok hrun₁ _).trans (runOn_bind_of_ok hrun₂ _)
  · rw [List.length_append, hlen, hs.coreParams, ← hsome]
    cases start? <;> rfl
  · refine (hcrossed (Nat.lt_of_le_of_lt hg₂.size_le hlt)).frame hs.paramArea ?_ hg₂.size_le
    exact sameIn_of_grows hg₁ hg₂ fun h => absurd h (Nat.lt_irrefl 0)

/-! ### Taking the arguments in -/

/-- The callee takes arguments in, and frees what it read. -/
theorem runOn_liftParams {ws tail : List Word} {bs : List Block} (hs : Signed abi sig)
    (hf : FitsRow abi (abi.fieldsOf sig.paramTypes) ns)
    (h : Crossed abi m sig.paramTypes ns sig.paramArea ws bs) (ho : m.Owns bs)
    (hb : bs.length ≤ m.size) (hlen : (ws ++ tail).length = sig.coreParams.length) :
    Taken m bs (runOn (abi.liftParams sig (ws ++ tail)) m) ∧
      (EveryListRow abi (Layout.Readable m.size) (abi.fieldsOf sig.paramTypes) ns →
        runOn (abi.liftParams sig (ws ++ tail)) m =
          (.ok (abi.valueRow (abi.fieldsOf sig.paramTypes) ns),
            m.releaseAll (Block.starts bs))) := by
  have hcheck : checkCount "core arguments" sig.coreParams.length (ws ++ tail).length = .ok () :=
    if_pos hlen.symm
  rw [liftParams, runOn_bind_liftM hcheck]
  generalize hareas : sig.paramArea = area at h
  cases h with
  | words carried =>
    cases carried with
    | product row => exact runOn_liftParamWords [] _ hf row hs.params ho hb
  | @area area start bs start_lt stored =>
    rw [List.length_append, Nat.add_comm] at hb
    have hb' : bs.length ≤ m.size := Nat.le_trans (Nat.le_add_right _ _) hb
    have hloaded := runOn_reading (abi.loadFields · sig.paramTypes start) m
    have hfree := runOn_freeFields hf stored rfl ho.right hb'
    have harea := runOn_free_of_owns ho.comm.after
    rw [ho.comm.releaseAll_after, ← Memory.releaseAll_starts_comm] at harea
    have hnext : (WordReader.ofList ([Word.ofNat start] ++ tail)).next .i32 =
      .ok (start, ⟨1, tail⟩) := WordReader.next_ofNat start_lt
    rw [runOn_bind_liftM hnext]
    cases hload : abi.loadFields m sig.paramTypes start with
    | error e =>
      rw [hload] at hloaded
      rw [runOn_bind_of_error hloaded]
      refine ⟨taken_error e, fun hread => ?_⟩
      have hok := loadFields_of_stored hf stored hread hb'
      rw [hload] at hok
      cases hok
    | ok vs =>
      rw [hload] at hloaded
      rw [runOn_bind_of_ok hloaded, runOn_bind_of_ok hfree, runOn_bind_of_ok harea]
      refine ⟨taken_of_all rfl, fun hread => ?_⟩
      have hok := loadFields_of_stored hf stored hread hb'
      rw [hload] at hok
      cases hok
      rfl

/-! ### Passing the results -/

/-- The callee passes results that can be read, in the area that is ready for them if there is one,
and writes to nothing else. -/
theorem runOn_lowerResults {call : LoweredCall} {ret : List Block} (hc : abi.arena.CasesFit)
    (hs : Signed abi sig) (hl : sig.resultTypes.length = values.length)
    (hn : abi.nativeAll sig.resultTypes values = .ok ns)
    (hr : Reserved m sig.returnArea call.returnArea ret) :
    ∃ ws m' bs, runOn (abi.lowerResults sig call values) m = (.ok ws, m') ∧
      Grows (reservedBytes sig.returnArea call.returnArea).1
        (reservedBytes sig.returnArea call.returnArea).2 bs m m' ∧
      (m'.size < UInt32.size →
        Returned abi m' sig.resultTypes ns sig.returnArea call.returnArea ws bs) := by
  have hf : Fits abi (abi.tupleOf sig.resultTypes) (.product ns) :=
    .product (fits_nativeAll hc hl hn)
  have hcheck : checkCount "results" sig.resultTypes.length values.length = .ok () := if_pos hl
  rw [lowerResults, runOn_bind_liftM hcheck]
  have hlayout := hs.returnArea
  generalize sig.returnArea = area at hr hlayout
  generalize call.returnArea = start? at hr
  cases hr with
  | none =>
    obtain ⟨ws, m', bs, hrun, hg, -, hcarried⟩ := hf.passes _ m hs.results
    rw [← lowerAll_native hn] at hrun
    exact ⟨ws, m', bs, runOn_guarded_of_ok hrun, hg, fun hlt => .words (hcarried hlt)⟩
  | @some area start covers start_lt =>
    obtain ⟨m', bs, hrun, hg, hstored⟩ := hf.lands area start m (hlayout area rfl) covers
    rw [← storeFields_native hn] at hrun
    exact ⟨[], m', bs, runOn_guarded_of_ok (runOn_bind_of_ok hrun _), hg,
      fun hlt => .area (hstored hlt)⟩

theorem carried_tupleOf_nil {ws : List Word} {bs : List Block}
    (h : Carried abi m (abi.tupleOf []) (.product ns) ws bs) : ns = [] ∧ bs = [] := by
  cases h with
  | product row =>
    cases row
    exact ⟨rfl, rfl⟩

theorem carried_tupleOf_singleton {id : TypeId} {ws : List Word} {bs : List Block}
    (h : Carried abi m (abi.tupleOf [id]) (.product ns) ws bs) :
    ∃ n, ns = [n] ∧ Carried abi m (abi.shape id) n ws bs := by
  cases h with
  | product row =>
    cases row with
    | cons head tail =>
      cases tail
      refine ⟨_, rfl, ?_⟩
      rw [List.append_nil, List.append_nil]
      exact head

/-- Reading the results changes nothing. -/
theorem runOn_liftResults_snd (abi : Abi) (sig : Signature) (call : LoweredCall) (ws : List Word)
    (m : Memory) : (runOn (abi.liftResults sig call ws) m).2 = m := by
  rw [liftResults]
  split
  · rw [runOn_reading]
  · split
    · rfl
    · rw [bind_pure_comp, runOn_map, runOn_reading]
    · rfl

/-- The caller reads results as what they stand for. -/
theorem runOn_liftResults {call : LoweredCall} {ws : List Word} {bs : List Block}
    (hs : Signed abi sig) (hf : FitsRow abi (abi.fieldsOf sig.resultTypes) ns)
    (h : Returned abi m sig.resultTypes ns sig.returnArea call.returnArea ws bs)
    (hb : bs.length ≤ m.size)
    (hread : EveryListRow abi (Layout.Readable m.size) (abi.fieldsOf sig.resultTypes) ns) :
    runOn (abi.liftResults sig call ws) m =
      (.ok (abi.valueRow (abi.fieldsOf sig.resultTypes) ns), m) := by
  have hsingle := hs.single
  rw [liftResults]
  generalize sig.returnArea = area at h hsingle
  generalize call.returnArea = start? at h
  generalize sig.resultTypes = ids at h hf hread hsingle
  cases h with
  | words carried =>
    match ids, hsingle rfl with
    | [], _ =>
      obtain ⟨rfl, -⟩ := carried_tupleOf_nil carried
      rfl
    | [id], _ =>
      obtain ⟨n, rfl, hcarried⟩ := carried_tupleOf_singleton carried
      cases hf with
      | cons head tail =>
        have hlift := runOn_reading (abi.liftFlat · id ws) m
        rw [liftFlat_of_carried head hcarried hread.1 hb] at hlift
        exact runOn_bind_of_ok hlift _
  | area stored => rw [runOn_reading, loadFields_of_stored hf stored hread hb]

/-- The caller frees what the results own, and the area they are in. -/
theorem runOn_postReturn {call : LoweredCall} {ws : List Word} {bs ret : List Block}
    (hs : Signed abi sig) (hf : FitsRow abi (abi.fieldsOf sig.resultTypes) ns)
    (h : Returned abi m sig.resultTypes ns sig.returnArea call.returnArea ws bs)
    {m₀ : Memory} (hr : Reserved m₀ sig.returnArea call.returnArea ret) (ho : m.Owns (bs ++ ret))
    (hb : bs.length ≤ m.size) :
    runOn (abi.postReturn sig call ws) m = (.ok (), m.releaseAll (Block.starts (bs ++ ret))) := by
  have hsingle := hs.single
  rw [postReturn]
  generalize sig.returnArea = area at h hr hsingle
  generalize call.returnArea = start? at h hr
  generalize sig.resultTypes = ids at h hf hsingle
  cases h with
  | words carried =>
    cases hr
    rw [List.append_nil] at ho ⊢
    match ids, hsingle rfl with
    | [], _ =>
      obtain ⟨-, rfl⟩ := carried_tupleOf_nil carried
      rw [Block.starts, List.map_nil, releaseAll_nil]
      rfl
    | [id], _ =>
      obtain ⟨n, rfl, hcarried⟩ := carried_tupleOf_singleton carried
      cases hf with
      | cons head tail =>
        exact runOn_freeFlat hcarried ho (enough_depth (not_unresolved_of_fits head) hb)
  | area stored =>
    cases hr
    rw [← ho.releaseAll_after]
    exact (runOn_bind_of_ok (runOn_freeFields hf stored rfl ho.left hb) _).trans
      (runOn_free_of_owns ho.after)

/-! ### Whole calls -/

/-- What follows the callee in a call. -/
def answer (abi : Abi) (sig : Signature) (lowered : LoweredCall) (moved : List UInt32)
    (returned : Except AbiError (List Value)) : MemoryM CallOutcome := do
  let results ← abi.passResults sig lowered (← liftM returned)
  let movedToCaller ← liftM (abi.ownedHandlesOfAll sig.resultTypes results)
  return { results, movedToCallee := moved, movedToCaller }

theorem call_eq (abi : Abi) (sig : Signature) (args : List Value)
    (callee : List Value → Except AbiError (List Value)) :
    abi.call sig args callee = MemoryM.guarded (do
      let moved ← liftM (abi.ownedHandlesOfAll sig.paramTypes args)
      let crossed ← abi.passParams sig args
      abi.answer sig crossed.1 moved (callee crossed.2)) :=
  rfl

/-! ### Size -/

theorem neverShrinks_freeFlat (id : TypeId) (ws : List Word) : NeverShrinks (abi.freeFlat id ws) :=
  (neverShrinks_of_fst fun _ => rfl).bind fun _ =>
    (neverShrinks_freeFlatWithin _ _ _).bind fun _ => neverShrinks_liftM _

theorem neverShrinks_freeFields (ids : List TypeId) (p : Nat) :
    NeverShrinks (abi.freeFields ids p) :=
  (neverShrinks_liftM _).bind fun _ => neverShrinks_forM fun _ =>
    (neverShrinks_of_fst fun _ => rfl).bind fun _ => neverShrinks_freeStoredWithin _ _ _

theorem neverShrinks_liftParamWords (ws : List Word) (position : Nat) (ids : List TypeId) :
    NeverShrinks (abi.liftParamWords ws position ids) := by
  induction ids generalizing position with
  | nil => exact neverShrinks_pure _
  | cons id ids ih =>
    refine (neverShrinks_liftM _).bind fun kinds => ?_
    dsimp only
    split
    · exact neverShrinks_throw _
    · refine (neverShrinks_reading _).bind fun v => (neverShrinks_freeFlat _ _).bind fun _ => ?_
      exact (ih _).bind fun _ => neverShrinks_pure _

theorem neverShrinks_liftParams (abi : Abi) (sig : Signature) (ws : List Word) :
    NeverShrinks (abi.liftParams sig ws) := by
  refine (neverShrinks_liftM _).bind fun _ => ?_
  split
  · refine (neverShrinks_liftM _).bind fun _ => (neverShrinks_reading _).bind fun _ => ?_
    refine (neverShrinks_freeFields _ _).bind fun _ => (neverShrinks_free _ _ _).bind fun _ => ?_
    exact neverShrinks_pure _
  · exact neverShrinks_liftParamWords _ _ _

theorem neverShrinks_postReturn (abi : Abi) (sig : Signature) (call : LoweredCall)
    (ws : List Word) : NeverShrinks (abi.postReturn sig call ws) := by
  rw [postReturn]
  split
  · exact (neverShrinks_freeFields _ _).bind fun _ => neverShrinks_free _ _ _
  · split
    · exact neverShrinks_freeFlat _ _
    · exact neverShrinks_pure _

/-! ### Results, whether they can be read or not -/

/-- Lowers values into the area that is ready for them, or into words. -/
def lowerBack (abi : Abi) (ids : List TypeId) (values : List Value) :
    Option Nat → MemoryM (List Word)
  | some start => do
    abi.storeFields ids values start
    return []
  | none => abi.lowerAll ids values

theorem lowerResults_eq (abi : Abi) (sig : Signature) (call : LoweredCall) (results : List Value) :
    abi.lowerResults sig call results = (do
      liftM (checkCount "results" sig.resultTypes.length results.length)
      MemoryM.guarded (abi.lowerBack sig.resultTypes results call.returnArea)) := by
  rw [lowerResults]
  cases call.returnArea <;> rfl

/-- Lowering results writes into one area, wherever it is. -/
theorem exists_confined_lowerBack (abi : Abi) (ids : List TypeId) (values : List Value)
    (start? : Option Nat) (m : Memory) :
    ∃ lo hi, Confined lo hi m (abi.lowerBack ids values start?) := by
  cases start? with
  | none => exact ⟨0, 0, confined_lowerAll⟩
  | some start =>
    cases hl : Shape.fieldLayouts (abi.fieldsOf ids) with
    | ok ls =>
      have harea : abi.sequenceLayout ids = .ok (Layout.sequence ls) := by
        rw [sequenceLayout, hl]
        rfl
      exact ⟨_, _, (confined_storeFields harea start).bind fun _ _ _ _ => confined_pure _⟩
    | error e =>
      have hfields : Confined 0 0 m (abi.storeFields ids values start) :=
        Confined.bind_liftM fun offsets ho => by
          rw [fieldOffsets, Shape.fieldOffsets, hl] at ho
          cases ho
      exact ⟨0, 0, hfields.bind fun _ _ _ _ => confined_pure _⟩

/-- What the caller does with results. -/
def receive (abi : Abi) (sig : Signature) (lowered : LoweredCall) (ws : List Word) :
    MemoryM (List Value) := do
  let lifted ← abi.liftResults sig lowered ws
  abi.postReturn sig lowered ws
  return lifted

theorem neverShrinks_receive (abi : Abi) (sig : Signature) (lowered : LoweredCall)
    (ws : List Word) : NeverShrinks (abi.receive sig lowered ws) :=
  (neverShrinks_of_fst fun m => runOn_liftResults_snd abi sig lowered ws m).bind fun _ =>
    (neverShrinks_postReturn abi sig lowered ws).bind fun _ => neverShrinks_pure _

theorem neverShrinks_lowerResults (abi : Abi) (sig : Signature) (lowered : LoweredCall)
    (values : List Value) : NeverShrinks (abi.lowerResults sig lowered values) := by
  rw [lowerResults_eq]
  refine (neverShrinks_liftM _).bind fun _ => NeverShrinks.guarded fun m => ?_
  obtain ⟨lo, hi, h⟩ := exists_confined_lowerBack abi sig.resultTypes values lowered.returnArea m
  exact h.size_le

theorem neverShrinks_passResults (sig : Signature) (lowered : LoweredCall) (values : List Value) :
    NeverShrinks (abi.passResults sig lowered values) :=
  (neverShrinks_lowerResults abi sig lowered values).bind fun ws =>
    neverShrinks_receive abi sig lowered ws

theorem neverShrinks_answer (abi : Abi) (sig : Signature) (lowered : LoweredCall)
    (moved : List UInt32) (returned : Except AbiError (List Value)) :
    NeverShrinks (abi.answer sig lowered moved returned) :=
  (neverShrinks_liftM _).bind fun _ => (neverShrinks_passResults _ _ _).bind fun _ =>
    (neverShrinks_liftM _).bind fun _ => neverShrinks_pure _

/-! ### An example -/

/-- The signature of the function on packets. Its result goes through an area. -/
def packetSignature : Signature where
  paramTypes := [⟨3⟩]
  resultTypes := [⟨1⟩]
  flatParams := [.i32, .i32, .i32]
  flatResults := [.i32, .i32]
  coreParams := [.i32, .i32, .i32, .i32]
  coreResults := []
  paramArea := none
  returnArea := some { size := 8, align := 4 }
  needsPostReturn := true
  paramsTransferHandles := false
  resultsTransferHandles := false

theorem functionSignature_packet : packet.functionSignature ⟨4⟩ = .ok packetSignature := by
  rfl

end Abi

end ComponentAbi
