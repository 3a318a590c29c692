import ComponentAbi.Proofs.Marshal.Passing
import ComponentAbi.Proofs.Shape.Slots

/-!
# The kinds of words

Whatever value is passed, the words it is passed as have the kinds that its type says, in that
order (`Abi.kinds_lowerFlat`): a case that is not there leaves zeros of the right kind, and a
payload that is itself a sum has its words moved once more. So what a core function is called with
and what it answers have the kinds that its signature says (`Abi.words_match_signature`).
-/

namespace ComponentAbi

/-- Answers of several steps, each of which was made on some memory. -/
theorem MemoryM.forall₂_of_mapM {α β : Type} {f : α → MemoryM β} {xs : List α} {ys : List β}
    {m m' : Memory} (h : runOn (xs.mapM f) m = (.ok ys, m')) :
    List.Forall₂ (fun x y => ∃ m m', runOn (f x) m = (.ok y, m')) xs ys := by
  induction xs generalizing ys m with
  | nil =>
    cases h
    exact .nil
  | cons x xs ih =>
    rw [List.mapM_cons] at h
    obtain ⟨y, m₁, hy, h⟩ := runOn_bind_eq_ok.1 h
    obtain ⟨ys, m₂, hys, h⟩ := runOn_bind_eq_ok.1 h
    cases h
    exact .cons ⟨m, m₁, hy⟩ (ih hys)

namespace Shape

/-- Slots that are filled have their own kinds, whatever they are filled with. -/
theorem kinds_fillSlots {slots : List CoreType} {ws filled : List Word}
    (h : fillSlots slots ws = .ok filled) : filled.map Word.kind = slots := by
  induction slots generalizing ws filled with
  | nil =>
    cases h
    rfl
  | cons slot slots ih =>
    cases ws with
    | nil =>
      obtain ⟨filled, hf, rfl⟩ := Except.map_eq_ok.1 h
      rw [List.map_cons, ih hf, Word.zero, Word.kind_ofBits]
    | cons w ws =>
      obtain ⟨x, hx, h⟩ := Except.bind_eq_ok.1 h
      obtain ⟨filled, hf, h⟩ := Except.bind_eq_ok.1 h
      cases h
      rw [List.map_cons, ih hf, Word.kind_coerce hx]

/-- Fields in a row that each have the kinds of some words. -/
theorem flattenFields_of_forall₂ {fields : List (String × Shape)} {wss : List (List Word)}
    (h : List.Forall₂ (fun field ws => field.2.flatten = .ok (ws.map Word.kind)) fields wss) :
    flattenFields fields = .ok (wss.flatten.map Word.kind) := by
  induction h with
  | nil => rfl
  | cons hw _ ih =>
    rw [flattenFields, hw, ih, List.flatten_cons, List.map_append]
    rfl

/-- A word of a kind goes into the slot that shares its kind with others. -/
theorem coerces_of_joinWords {slots : List CoreType} {ws : List Word}
    (h : joinWords (ws.map Word.kind) slots = slots) {i : Nat} {w : Word} (hw : ws[i]? = some w) :
    ∃ slot x, slots[i]? = some slot ∧ w.coerce slot = .ok x := by
  induction ws generalizing slots i with
  | nil => cases hw
  | cons w' ws ih =>
    cases slots with
    | nil => cases h
    | cons slot slots =>
      obtain ⟨hslot, hrest⟩ := List.cons.inj h
      cases i with
      | zero =>
        cases hw
        obtain ⟨x, hx, -⟩ := Except.bind_eq_ok.1 (Word.cast_between_join w slot)
        rw [hslot] at hx
        exact ⟨slot, x, rfl, hx⟩
      | succ i => exact ih hrest hw

end Shape

namespace Abi

open MemoryM

variable {abi : Abi} {d : Nat} {s : Shape} {v : Value} {ws : List Word} {m m' : Memory}
  {ids : List TypeId} {values : List Value} {sig : Signature} {func : TypeId}

/-! ### Words of values -/

/-- The words of a sum, whatever the words of its payload are. -/
theorem kinds_of_fill {own : MemoryM (List Word)} {slots : List CoreType} {index : Nat}
    (h : runOn (do
      let words ← own
      let filled ← liftM (Shape.fillSlots slots words)
      return Word.ofNat index :: filled) m = (.ok ws, m')) : ws.map Word.kind = .i32 :: slots := by
  obtain ⟨words, m₁, -, h⟩ := runOn_bind_eq_ok.1 h
  obtain ⟨filled, m₂, hfilled, h⟩ := runOn_bind_eq_ok.1 h
  cases h
  rw [runOn_liftM] at hfilled
  rw [List.map_cons, Shape.kinds_fillSlots (Prod.mk.inj hfilled).1]
  rfl

theorem kinds_of_lowerWithin (h : runOn (abi.lowerWithin d s v) m = (.ok ws, m')) :
    s.flatten = .ok (ws.map Word.kind) := by
  induction d generalizing s v ws m m' with
  | zero => cases h
  | succ d ih =>
    obtain ⟨kinds, hk⟩ := flatten_of_lowerWithin (Succeeds.of_runOn h)
    rw [hk]
    cases s with
    | leaf l =>
      obtain ⟨_, -, rfl⟩ := Except.map_eq_ok.1 hk
      obtain ⟨bits, m₁, -, h⟩ := runOn_bind_eq_ok.1 h
      cases h
      rw [List.map_singleton, Word.kind_ofBits]
    | string =>
      cases hk
      cases v with
      | string text =>
        obtain ⟨pair, m₁, -, h⟩ := runOn_bind_eq_ok.1 h
        cases h
        rfl
      | _ => cases h
    | list element =>
      cases hk
      cases v with
      | list items =>
        obtain ⟨pair, m₁, -, h⟩ := runOn_bind_eq_ok.1 h
        cases h
        rfl
      | _ => cases h
    | product kind fields =>
      rw [← hk]
      obtain ⟨parts, m₁, hp, h⟩ := runOn_bind_eq_ok.1 h
      rw [runOn_liftM] at hp
      have hl := ProductKind.length_parts (Prod.mk.inj hp).1
      rw [List.length_map] at hl
      obtain ⟨wss, m₂, hws, h⟩ := runOn_bind_eq_ok.1 h
      cases h
      refine Shape.flattenFields_of_forall₂ ?_
      have hkinds := (forall₂_of_mapM hws).imp fun field ws ⟨m, m', hw⟩ => by
        obtain ⟨v, m₁, -, hw⟩ := runOn_bind_eq_ok.1 hw
        exact ih hw
      rw [← List.map_fst_zip (Nat.le_of_eq hl.symm)]
      exact List.forall₂_map_left_iff.2 hkinds
    | sum kind cases =>
      obtain ⟨slots, hslots, rfl⟩ := Except.map_eq_ok.1 hk
      obtain ⟨⟨index, paired⟩, m₁, -, h⟩ := runOn_bind_eq_ok.1 h
      obtain ⟨slots', m₂, hslots', h⟩ := runOn_bind_eq_ok.1 h
      rw [runOn_liftM] at hslots'
      cases hslots.symm.trans (Prod.mk.inj hslots').1
      have hws : ws.map Word.kind = .i32 :: slots := by
        cases paired with
        | none => exact kinds_of_fill h
        | some paired => exact kinds_of_fill h
      rw [hws]
    | unsupported kind title => cases hk
    | unresolved cause => cases hk

/-- The words of a value have the kinds of its type. -/
theorem kinds_lowerFlat {id : TypeId} (h : runOn (abi.lowerFlat id v) m = (.ok ws, m')) :
    abi.flatten id = .ok (ws.map Word.kind) :=
  kinds_of_lowerWithin h

theorem kinds_lowerAll (hl : ids.length = values.length)
    (h : runOn (abi.lowerAll ids values) m = (.ok ws, m')) :
    Shape.flattenFields (abi.fieldsOf ids) = .ok (ws.map Word.kind) := by
  obtain ⟨wss, m₁, hws, h⟩ := runOn_bind_eq_ok.1 h
  cases h
  have hkinds := (forall₂_of_mapM hws).imp fun x ws ⟨m, m', hw⟩ => kinds_lowerFlat hw
  refine Shape.flattenFields_of_forall₂ ?_
  rw [fieldsOf, ← List.map_fst_zip (Nat.le_of_eq hl), List.map_map]
  exact List.forall₂_map_left_iff.2 hkinds

/-- Words of a payload go into the slots that all cases share. -/
theorem payload_coerces {cases : List (String × Option Shape)} {slots : List CoreType}
    {label : String} (hslots : Shape.flattenCases cases = .ok slots)
    (hm : (label, some s) ∈ cases) (h : runOn (abi.lowerWithin d s v) m = (.ok ws, m')) {i : Nat}
    {w : Word} (hw : ws[i]? = some w) :
    ∃ slot x, slots[i]? = some slot ∧ w.coerce slot = .ok x := by
  obtain ⟨kinds, hk, hj⟩ := Shape.fits_slots hslots hm
  cases hk.symm.trans (kinds_of_lowerWithin h)
  exact Shape.coerces_of_joinWords hj hw

/-! ### Words of calls -/

/-- What the words of a signature are. -/
structure CoreWords (sig : Signature) : Prop where
  /-- Parameters are words or the address of an area, and the address of the area for results comes
  last. -/
  coreParams : sig.coreParams = (if sig.paramArea.isSome then [.i32] else sig.flatParams) ++
    if sig.returnArea.isSome then [.i32] else []
  /-- Without an area there are not too many words of parameters. -/
  flatParams_le : sig.paramArea = none → sig.flatParams.length ≤ maxFlatParams
  /-- Without an area there are not too many words of results. -/
  flatResults_le : sig.returnArea = none → sig.flatResults.length ≤ maxFlatResults

theorem coreWords_of_signature {f : FunctionType} (h : abi.signature f = .ok sig) :
    CoreWords sig := by
  obtain ⟨flatParams, -, h⟩ := Except.bind_eq_ok.1 h
  obtain ⟨flatResults, -, h⟩ := Except.bind_eq_ok.1 h
  simp only [ite_bind] at h
  obtain ⟨paramArea, hpa, h⟩ := Except.bind_eq_ok.1 h
  obtain ⟨returnArea, hra, h⟩ := Except.bind_eq_ok.1 h
  obtain ⟨facts, -, h⟩ := Except.bind_eq_ok.1 h
  obtain ⟨transfer, -, h⟩ := Except.bind_eq_ok.1 h
  cases h
  obtain ⟨hp, -⟩ := sequenceLayout_of_area hpa
  obtain ⟨hr, -⟩ := sequenceLayout_of_area hra
  refine ⟨by simp only [hp, hr], fun hnone => ?_, fun hnone => ?_⟩
  · have hnone : paramArea = none := hnone
    simpa [hnone] using hp
  · have hnone : returnArea = none := hnone
    rw [hnone] at hr
    simp only [Option.isSome_none, Bool.false_eq_true, Bool.or_eq_true, decide_eq_true_eq,
      false_iff, not_or, Nat.not_lt] at hr
    exact hr.2

theorem coreWords_of_functionSignature (h : abi.functionSignature func = .ok sig) :
    CoreWords sig := by
  obtain ⟨⟨resolved, node⟩, -, h⟩ := Except.bind_eq_ok.1 h
  cases node with
  | function f => exact coreWords_of_signature h
  | _ => cases h

theorem CoreWords.length_coreParams_le (h : CoreWords sig) :
    sig.coreParams.length ≤ maxFlatParams + 1 := by
  have hlast : (if sig.returnArea.isSome then [CoreType.i32] else []).length ≤ 1 := by
    split <;> simp
  rw [h.coreParams, List.length_append]
  cases harea : sig.paramArea with
  | none => exact Nat.add_le_add (h.flatParams_le harea) hlast
  | some area => exact Nat.add_le_add (Nat.le_of_ble_eq_true rfl) hlast

theorem kinds_lowerInto {kinds : List CoreType} {area : Option Layout}
    (hl : ids.length = values.length) (hk : Shape.flattenFields (abi.fieldsOf ids) = .ok kinds)
    (h : runOn (abi.lowerInto ids values area) m = (.ok ws, m')) :
    ws.map Word.kind = if area.isSome then [.i32] else kinds := by
  cases area with
  | none => exact Except.ok.inj ((kinds_lowerAll hl h).symm.trans hk)
  | some area =>
    obtain ⟨start, m₁, -, h⟩ := runOn_bind_eq_ok.1 h
    obtain ⟨_, m₂, -, h⟩ := runOn_bind_eq_ok.1 h
    cases h
    rfl

theorem isSome_of_reserve {area : Option Layout} {start? : Option Nat}
    (h : runOn (reserve area) m = (.ok start?, m')) : start?.isSome = area.isSome := by
  cases area <;> cases h <;> rfl

theorem eq_of_checkCount {what : String} {expected got : Nat}
    (h : checkCount what expected got = .ok ()) : expected = got := by
  rw [checkCount] at h
  split at h
  · assumption
  · cases h

/-- What the core function is called with has the kinds of its parameters. -/
theorem kinds_lowerParams (hsig : abi.functionSignature func = .ok sig) {args : List Value}
    {lowered : LoweredCall} (h : runOn (abi.lowerParams sig args) m = (.ok lowered, m')) :
    lowered.coreArgs.map Word.kind = sig.coreParams ∧
      lowered.returnArea.isSome = sig.returnArea.isSome := by
  rw [lowerParams_eq] at h
  obtain ⟨_, m₁, hcount, h⟩ := runOn_bind_eq_ok.1 h
  rw [runOn_liftM] at hcount
  obtain ⟨ws, m₂, hws, h⟩ := runOn_bind_eq_ok.1 (runOn_of_guarded_ok h)
  obtain ⟨start?, m₃, hstart, h⟩ := runOn_bind_eq_ok.1 h
  cases h
  have hsome := isSome_of_reserve hstart
  have hkinds := kinds_lowerInto (eq_of_checkCount (Prod.mk.inj hcount).1)
    (signed_of_functionSignature hsig).params hws
  refine ⟨?_, hsome⟩
  rw [List.map_append, hkinds, (coreWords_of_functionSignature hsig).coreParams, ← hsome]
  cases start? <;> rfl

/-- What the core function answers has the kinds of its results. -/
theorem kinds_lowerResults (hsig : abi.functionSignature func = .ok sig) {call : LoweredCall}
    {results : List Value} (hcall : call.returnArea.isSome = sig.returnArea.isSome)
    (h : runOn (abi.lowerResults sig call results) m = (.ok ws, m')) :
    ws.map Word.kind = sig.coreResults := by
  have hs := signed_of_functionSignature hsig
  rw [lowerResults_eq] at h
  obtain ⟨_, m₁, hcount, h⟩ := runOn_bind_eq_ok.1 h
  rw [runOn_liftM] at hcount
  have h := runOn_of_guarded_ok h
  cases hstart : call.returnArea with
  | none =>
    rw [hstart] at h hcall
    have hl := eq_of_checkCount (Prod.mk.inj hcount).1
    have hnone : sig.returnArea = none :=
      Option.not_isSome_iff_eq_none.1 (by rw [← hcall]; exact Bool.false_ne_true)
    rw [hs.coreResults hnone]
    exact Except.ok.inj ((kinds_lowerAll hl h).symm.trans hs.results)
  | some start =>
    rw [hstart] at h hcall
    obtain ⟨_, m₂, -, h⟩ := runOn_bind_eq_ok.1 h
    cases h
    exact (hs.noCoreResults hcall.symm).symm

theorem length_coreResults_le (hsig : abi.functionSignature func = .ok sig) :
    sig.coreResults.length ≤ maxFlatResults := by
  have hs := signed_of_functionSignature hsig
  cases harea : sig.returnArea with
  | none =>
    rw [hs.coreResults harea]
    exact (coreWords_of_functionSignature hsig).flatResults_le harea
  | some area =>
    rw [hs.noCoreResults (by rw [harea]; rfl)]
    exact Nat.zero_le _

/-- Words have the kinds that types and signatures say. Whatever value is passed, its words have the
kinds of its type; a core function is called with words of the kinds of its parameters, at most 17,
and answers words of the kinds of its results, at most one; and a word of a payload always goes into
the slot that it shares with the other cases. -/
theorem words_match_signature (abi : Abi) :
    (∀ id v m ws m', runOn (abi.lowerFlat id v) m = (.ok ws, m') →
      abi.flatten id = .ok (ws.map Word.kind)) ∧
    (∀ func sig, abi.functionSignature func = .ok sig →
      (∀ args m lowered m', runOn (abi.lowerParams sig args) m = (.ok lowered, m') →
        lowered.coreArgs.map Word.kind = sig.coreParams ∧ lowered.coreArgs.length ≤ 17 ∧
          lowered.returnArea.isSome = sig.returnArea.isSome) ∧
      ∀ call results m ws m', call.returnArea.isSome = sig.returnArea.isSome →
        runOn (abi.lowerResults sig call results) m = (.ok ws, m') →
          ws.map Word.kind = sig.coreResults ∧ ws.length ≤ 1) ∧
    ∀ cases slots label s d v m ws m' (i : Nat) (w : Word), Shape.flattenCases cases = .ok slots →
      (label, some s) ∈ cases → runOn (abi.lowerWithin d s v) m = (.ok ws, m') →
        ws[i]? = some w → ∃ slot x, slots[i]? = some slot ∧ w.coerce slot = .ok x := by
  refine ⟨fun _ _ _ _ _ => kinds_lowerFlat, fun func sig hsig => ⟨?_, ?_⟩,
    fun _ _ _ _ _ _ _ _ _ _ _ hslots hm h hw => payload_coerces hslots hm h hw⟩
  · intro args m lowered m' h
    obtain ⟨hkinds, harea⟩ := kinds_lowerParams hsig h
    refine ⟨hkinds, ?_, harea⟩
    have hle := (coreWords_of_functionSignature hsig).length_coreParams_le
    rwa [← hkinds, List.length_map] at hle
  · intro call results m ws m' hcall h
    have hkinds := kinds_lowerResults hsig hcall h
    have hle := length_coreResults_le hsig
    rw [← hkinds, List.length_map] at hle
    exact ⟨hkinds, hle⟩

/-- The words of a packet, and of the call that passes it. -/
theorem words_match_signature_packet :
    packet.flatten ⟨3⟩ = .ok [.i32, .i32, .i32] ∧
      ([.i32 1, .i32 2, .i32 5, .i32 4] : List Word).map Word.kind =
        packetSignature.coreParams := by
  have hlower : runOn (packet.lowerFlat ⟨3⟩ shuffledPacket) {} =
      (.ok [.i32 1, .i32 2, .i32 5], ⟨[0, 7, 9], [⟨1, 2, 1, true⟩]⟩) := by
    decide +kernel
  have hcall : runOn (packet.lowerParams packetSignature [shuffledPacket]) {} =
      (.ok ⟨[.i32 1, .i32 2, .i32 5, .i32 4], some 4⟩,
        ⟨[0, 7, 9] ++ List.replicate 9 0, [⟨4, 8, 4, true⟩, ⟨1, 2, 1, true⟩]⟩) := by
    decide +kernel
  exact ⟨(words_match_signature packet).1 _ _ _ _ _ hlower,
    (((words_match_signature packet).2.1 _ _ functionSignature_packet).1 _ _ _ _ hcall).1⟩

end Abi

end ComponentAbi
