import ComponentAbi.Proofs.Marshal.WordKinds
import ComponentAbi.Proofs.Plan.Acceptance
import ComponentAbi.Proofs.Plan.Emission

/-!
# Temporaries of whole plans

The plans of any functions, in any mix of directions and numbered in one sequence, define no
temporary twice and read none out of scope (`plans_single_assignment`), as long as the numbers,
which have 32 bits, do not run out. In each of them, every temporary holds a word of the kind or a
value of the type that its use asks for (`Abi.plan_well_typed`).
-/

namespace ComponentAbi

open Content Instruction PlanM

/-! ### Arguments -/

namespace Instruction

/-- The parameter that an instruction names. -/
def argument : Instruction → List Local
  | arg _ dst => [dst]
  | _ => []

theorem argument_eq_nil {i : Instruction} (h : ¬i.Linking) : i.argument = [] := by
  cases i <;> first | rfl | exact absurd trivial h

theorem allNested_of_bodies_eq_nil {code : List Instruction} (h : ∀ i ∈ code, i.bodies = []) :
    allNested code = code := by
  induction code with
  | nil => rfl
  | cons i code ih =>
    obtain ⟨hi, hcode⟩ := List.forall_mem_cons.1 h
    rw [allNested, withNested_eq, hi, ih hcode]
    rfl

end Instruction

/-- All parameters that some instructions name. -/
def namedIn (code : List Instruction) : List Local :=
  (allNested code).flatMap argument

section Arguments

variable {abi : Abi} {f : Linkage} {Γ Γ' : Contents} {code : List Instruction} {k k' : Nat}

theorem namedIn_append (code more : List Instruction) :
    namedIn (code ++ more) = namedIn code ++ namedIn more := by
  rw [namedIn, allNested_append, List.flatMap_append]
  rfl

theorem Emitted.namedIn_eq (h : Emitted abi Γ code Γ' k k') : namedIn code = [] :=
  List.flatMap_eq_nil_iff.2 fun i hi => argument_eq_nil ((h.typed {}).not_linking i hi)

theorem allNested_argsOf (params : List Local) :
    allNested (Plan.argsOf params) = Plan.argsOf params := by
  refine allNested_of_bodies_eq_nil fun i hi => ?_
  obtain ⟨⟨dst, index⟩, -, rfl⟩ := List.mem_map.1 hi
  rfl

theorem namedIn_argsOf (params : List Local) : namedIn (Plan.argsOf params) = params := by
  rw [namedIn, allNested_argsOf, Plan.argsOf, List.flatMap_map]
  exact List.map_eq_flatMap.symm.trans (List.zipIdx_map_fst 0 params)

theorem definedIn_argsOf (params : List Local) : definedIn (Plan.argsOf params) = params := by
  rw [definedIn, allNested_argsOf, Plan.argsOf, List.flatMap_map]
  exact List.map_eq_flatMap.symm.trans (List.zipIdx_map_fst 0 params)

/-- Naming parameters from some index on. -/
theorem typed_args {ls : List Local} {n : Nat} (h : ls.length = (f.params.drop n).length)
    (Γ : Contents) : ∃ Γ', TypedCode abi f Γ ((ls.zipIdx n).map fun (dst, index) =>
      .arg index dst) Γ' ∧ Γ'.Hold ls (words (f.params.drop n)) := by
  induction ls generalizing n Γ with
  | nil =>
    rw [List.length_eq_zero_iff.1 h.symm]
    exact ⟨Γ, .nil Γ, .nil⟩
  | cons l ls ih =>
    have hn : n < f.params.length := by
      rw [List.length_cons, List.length_drop] at h
      omega
    rw [List.drop_eq_getElem_cons hn] at h ⊢
    obtain ⟨Γ', hcode, hold⟩ := ih (Nat.succ.inj h) ((l, .word f.params[n]) :: Γ)
    refine ⟨Γ', .cons (.arg (List.getElem?_eq_getElem hn)) hcode, .cons ?_ hold⟩
    exact hcode.subset List.mem_cons_self

theorem typed_argsOf {ls : List Local} (h : ls.length = f.params.length) :
    ∃ Γ, TypedCode abi f [] (Plan.argsOf ls) Γ ∧ Γ.Hold ls (words f.params) :=
  typed_args (n := 0) h []

end Arguments

/-! ### Values in rows -/

namespace Plan

variable {abi : Abi} {Γ : Contents} {ids : List TypeId} {values : List Local} {base : Local}

theorem meets_storeAll (hv : Γ.Hold values (natives (ids.map abi.shape)))
    (hb : (base, .word .i32) ∈ Γ) (k : Nat) :
    (storeAll abi ids values base).Meets k fun code k' => ∃ Γ', Emitted abi Γ code Γ' k k' := by
  rw [natives, List.map_map] at hv
  refine meets_bind_liftM fun offsets _ => ?_
  have hstore (x : (TypeId × Local) × Nat) (hx : x ∈ (ids.zip values).zip offsets) (Γ' : Contents)
      (k : Nat) (hs : Γ ⊆ Γ') := storesTyped_store abi (depthBound abi) Γ' (abi.shape x.1.1) x.1.2
        base x.2 k (hs (hv.of_mem_zip_swap (List.of_mem_zip hx).1)) (hs hb)
  exact (meets_mapM_code hstore k).bind fun codes k' h => meets_pure h

theorem meets_loadAll (ids : List TypeId) (hb : (base, .word .i32) ∈ Γ) (k : Nat) :
    (loadAll abi ids base).Meets k fun r k' => ∃ Γ', Emitted abi Γ r.1 Γ' k k' ∧
      Γ'.Hold r.2 (natives (ids.map abi.shape)) := by
  refine meets_bind_liftM fun offsets hoffsets => ?_
  have hload (x : TypeId × Nat) (_ : x ∈ ids.zip offsets) (Γ' : Contents) (k : Nat)
      (hs : Γ ⊆ Γ') := loadsTyped_load abi (depthBound abi) Γ' (abi.shape x.1) base x.2 k (hs hb)
  refine (meets_mapM_values hload k).bind fun rs k' ⟨Γ', hcode, hold⟩ => meets_pure ⟨Γ', hcode, ?_⟩
  have hl := (Shape.length_fieldOffsets hoffsets).trans (List.length_map _)
  rw [map_zip_fst hl fun id => native (abi.shape id)] at hold
  rwa [natives, List.map_map]

theorem meets_freeAll (ids : List TypeId) (hb : (base, .word .i32) ∈ Γ) (k : Nat) :
    (freeAll abi ids base).Meets k fun code k' => ∃ Γ', Emitted abi Γ code Γ' k k' := by
  refine meets_bind_liftM fun offsets _ => ?_
  have hfree (x : TypeId × Nat) (_ : x ∈ ids.zip offsets) (Γ' : Contents) (k : Nat)
      (hs : Γ ⊆ Γ') :=
    freesTyped_freeStored abi (depthBound abi) Γ' (abi.shape x.1) base x.2 k (hs hb)
  exact (meets_mapM_code hfree k).bind fun codes k' h => meets_pure h

theorem meets_lowerAll (hv : Γ.Hold values (natives (ids.map abi.shape))) (k : Nat) :
    (lowerAll abi ids values).Meets k fun r k' => ∃ Γ' kinds, Emitted abi Γ r.1 Γ' k k' ∧
      Shape.flattenFields (abi.fieldsOf ids) = .ok kinds ∧ Γ'.Hold r.2 (words kinds) := by
  have hl : values.length = ids.length := by simpa using hv.length_eq
  rw [natives, List.map_map] at hv
  have hlower (x : TypeId × Local) (hx : x ∈ ids.zip values) (Γ' : Contents) (k : Nat)
      (hs : Γ ⊆ Γ') := lowersTyped_lower abi (depthBound abi) Γ' (abi.shape x.1) x.2 k
        (hs (hv.of_mem_zip_swap hx))
  refine (meets_mapM_words (c := fun x => ("", abi.shape x.1)) hlower k).bind
    fun rs k' ⟨Γ', kinds, hcode, hk, hold⟩ => meets_pure ⟨Γ', kinds, hcode, ?_, hold⟩
  rwa [map_zip_fst hl fun id => ("", abi.shape id)] at hk

variable (abi) in
theorem meets_allocate (area : Layout) (Γ : Contents) (k : Nat) :
    (allocate area).Meets k fun r k' => ∃ Γ', Emitted abi Γ r.1 Γ' k k' ∧
      (r.2, .word .i32) ∈ Γ' :=
  meets_bind_fresh <| meets_pure ⟨_, TypedStep.emitted_next
    (fun _ => .alloc area.size area.align ⟨k⟩) rfl, List.mem_cons_self⟩

theorem meets_liftParams {ws : List Local} {kinds more : List CoreType}
    (hk : Shape.flattenFields (abi.fieldsOf ids) = .ok kinds)
    (hw : Γ.Hold ws (words (kinds ++ more))) (k : Nat) :
    (liftParams abi ids ws).Meets k fun r k' => ∃ Γ', Emitted abi Γ r.1 Γ' k k' ∧
      Γ'.Hold r.2.1 (natives (ids.map abi.shape)) ∧ Γ'.Hold r.2.2 (words more) := by
  induction ids generalizing ws kinds Γ k with
  | nil =>
    cases hk
    exact meets_pure ⟨Γ, emitted_nil Γ k, .nil, hw⟩
  | cons id ids ih =>
    obtain ⟨own, hown, hk⟩ := Except.bind_eq_ok.1 hk
    obtain ⟨rest, hrest, hk⟩ := Except.bind_eq_ok.1 hk
    cases hk
    rw [List.append_assoc] at hw
    obtain ⟨hfirst, hws⟩ := hw.take_drop
    refine meets_bind_liftM fun own' hown' => meets_bind_take fun _ => ?_
    cases hown.symm.trans hown'
    have hfirst : Γ.Hold (ws.take own.length) (words (own ++ [])) := by rwa [List.append_nil]
    refine (liftsTyped_lift abi (depthBound abi) Γ _ _ own [] k hown hfirst).bind
      fun ⟨lifting, part, _⟩ k₁ ⟨Γ₁, hlifting, hpart, _⟩ => ?_
    refine (freesWordsTyped_freeFlat abi (depthBound abi) Γ₁ _ _ own [] k₁ hown
      (hfirst.mono hlifting.subset)).bind fun ⟨freeing, _⟩ k₂ ⟨Γ₂, hfreeing, _⟩ => ?_
    -- Each parameter is freed before the next one is lifted, but what was lifted stays.
    have hboth := hlifting.append hfreeing
    refine (ih hrest (hws.mono hboth.subset) k₂).bind
      fun ⟨code, parts, left⟩ k' ⟨Γ', hcode, hparts, hleft⟩ => meets_pure ⟨Γ', hboth.append hcode,
        .cons (hcode.subset (hfreeing.subset hpart)) hparts, hleft⟩

/-! ### Both sides of a function -/

section Sides

variable {sig : Signature} {func : TypeId} {kinds : List CoreType} {area : Option Layout}

theorem meets_lowerInto (hv : Γ.Hold values (natives (ids.map abi.shape)))
    (hk : Shape.flattenFields (abi.fieldsOf ids) = .ok kinds) (k : Nat) :
    (lowerInto abi ids values area).Meets k fun r k' => ∃ Γ', Emitted abi Γ r.1 Γ' k k' ∧
      Γ'.Hold r.2 (words (if area.isSome then [.i32] else kinds)) := by
  cases area with
  | none =>
    refine (meets_lowerAll hv k).mono fun r k' ⟨Γ', kinds', hcode, hk', hold⟩ => ?_
    cases hk.symm.trans hk'
    exact ⟨Γ', hcode, hold⟩
  | some area =>
    refine (meets_allocate abi area Γ k).bind fun ⟨code, ptr⟩ k₁ ⟨Γ₁, hcode, hptr⟩ => ?_
    refine (meets_storeAll (hv.mono hcode.subset) hptr k₁).bind fun storing k' ⟨Γ', hstoring⟩ =>
      meets_pure ⟨Γ', hcode.append hstoring, ?_⟩
    exact Contents.hold_singleton (hstoring.subset hptr)

variable (abi) in
theorem meets_reserve (area : Option Layout) (Γ : Contents) (k : Nat) :
    (reserve area).Meets k fun r k' => ∃ Γ', Emitted abi Γ r.1 Γ' k k' ∧
      Γ'.Hold r.2 (words (if area.isSome then [.i32] else [])) := by
  cases area with
  | none => exact meets_pure ⟨Γ, emitted_nil Γ k, .nil⟩
  | some area =>
    exact (meets_allocate abi area Γ k).bind fun ⟨code, ptr⟩ k' ⟨Γ', hcode, hptr⟩ =>
      meets_pure ⟨Γ', hcode, Contents.hold_singleton hptr⟩

/-- Loading values from an area, and freeing what they own and the area. -/
theorem meets_bind_loadAll {β : Type} {R : β → Nat → Prop} (ids : List TypeId) (area : Layout)
    {g : List Instruction × List Local → List Instruction → PlanM β}
    (hb : (base, .word .i32) ∈ Γ) {k : Nat}
    (hg : ∀ r freeing Γ' k',
      Emitted abi Γ (r.1 ++ freeing ++ [.free base area.size area.align]) Γ' k k' →
        Γ'.Hold r.2 (natives (ids.map abi.shape)) → (g r freeing).Meets k' R) :
    (loadAll abi ids base >>= fun r => freeAll abi ids base >>= g r).Meets k R := by
  refine (meets_loadAll ids hb k).bind fun r k₁ ⟨Γ₁, hloading, hold⟩ => ?_
  refine (meets_freeAll ids (hloading.subset hb) k₁).bind fun freeing k₂ ⟨Γ₂, hfreeing⟩ => ?_
  have hboth := hloading.append hfreeing
  exact hg r freeing Γ₂ k₂ (hboth.append (TypedStep.emitted_nil
    (fun _ => .free area.size area.align (hboth.subset hb)) rfl k₂)) (hold.mono hfreeing.subset)

theorem meets_receive (hs : Signed abi sig) {results pointer : List Local}
    (hr : Γ.Hold results (words sig.coreResults))
    (hp : Γ.Hold pointer (words (if sig.returnArea.isSome then [.i32] else []))) (k : Nat) :
    (receive abi sig.resultTypes results sig.returnArea pointer).Meets k fun r k' =>
      ∃ Γ', Emitted abi Γ r.1 Γ' k k' ∧
        Γ'.Hold r.2 (natives (sig.resultTypes.map abi.shape)) := by
  cases harea : sig.returnArea with
  | some area =>
    rw [harea] at hp
    match pointer, hp with
    | [ptr], hp =>
      exact meets_bind_loadAll sig.resultTypes area (List.forall₂_cons.1 hp).1
        fun r freeing Γ' k' hcode hold => meets_pure ⟨Γ', hcode, hold⟩
  | none =>
    rw [hs.coreResults harea] at hr
    match hids : sig.resultTypes, hs.single harea with
    | [], _ => exact meets_pure ⟨Γ, emitted_nil Γ k, .nil⟩
    | [id], _ =>
      have hk := flatten_single hs hids
      rw [← List.append_nil sig.flatResults] at hr
      refine (liftsTyped_lift abi (depthBound abi) Γ _ _ _ [] k hk hr).bind
        fun ⟨lifting, value, _⟩ k₁ ⟨Γ₁, hlifting, hvalue, _⟩ => ?_
      refine (freesWordsTyped_freeFlat abi (depthBound abi) Γ₁ _ _ _ [] k₁ hk
        (hr.mono hlifting.subset)).bind fun ⟨freeing, _⟩ k' ⟨Γ', hfreeing, _⟩ => meets_pure ?_
      exact ⟨Γ', hlifting.append hfreeing, Contents.hold_singleton (hfreeing.subset hvalue)⟩

theorem meets_liftFrom {params : List Local} {more : List CoreType}
    (hk : Shape.flattenFields (abi.fieldsOf ids) = .ok kinds)
    (hp : Γ.Hold params (words ((if area.isSome then [.i32] else kinds) ++ more))) (k : Nat) :
    (liftFrom abi ids params area).Meets k fun r k' => ∃ Γ', Emitted abi Γ r.1 Γ' k k' ∧
      Γ'.Hold r.2.1 (natives (ids.map abi.shape)) ∧ Γ'.Hold r.2.2 (words more) := by
  cases area with
  | none => exact meets_liftParams hk hp k
  | some area =>
    refine meets_bind_next fun ptr rest hws => ?_
    subst hws
    obtain ⟨hptr, hrest⟩ := List.forall₂_cons.1 hp
    exact meets_bind_loadAll ids area hptr fun r freeing Γ' k' hcode hold =>
      meets_pure ⟨Γ', hcode, hold, Contents.Hold.mono hrest hcode.subset⟩

theorem meets_pointerOf {ws : List Local}
    (hw : Γ.Hold ws (words (if area.isSome then [.i32] else []))) (k : Nat) :
    (pointerOf ws area).Meets k fun ptr? k' => k' = k ∧
      Γ.Hold ptr?.toList (words (if area.isSome then [.i32] else [])) := by
  cases area with
  | none => exact meets_pure ⟨rfl, .nil⟩
  | some area =>
    refine meets_bind_next fun ptr rest hws => meets_pure ⟨rfl, ?_⟩
    subst hws
    exact Contents.hold_singleton (List.forall₂_cons.1 hw).1

theorem meets_lowerBack (hs : Signed abi sig) {results : List Local} {ptr? : Option Local}
    (hr : Γ.Hold results (natives (sig.resultTypes.map abi.shape)))
    (hp : Γ.Hold ptr?.toList (words (if sig.returnArea.isSome then [.i32] else []))) (k : Nat) :
    (lowerBack abi sig.resultTypes results ptr?).Meets k fun r k' =>
      ∃ Γ', Emitted abi Γ r.1 Γ' k k' ∧ Γ'.Hold r.2 (words sig.coreResults) := by
  cases harea : sig.returnArea with
  | none =>
    rw [harea] at hp
    cases ptr? with
    | some ptr => cases hp
    | none =>
      refine (meets_lowerAll hr k).mono fun r k' ⟨Γ', kinds, hcode, hk, hold⟩ => ?_
      cases hs.results.symm.trans hk
      exact ⟨Γ', hcode, hs.coreResults harea ▸ hold⟩
  | some area =>
    rw [harea] at hp
    cases ptr? with
    | none => cases hp
    | some ptr =>
      refine (meets_storeAll hr (List.forall₂_cons.1 hp).1 k).bind
        fun code k' ⟨Γ', hcode⟩ => meets_pure ⟨Γ', hcode, ?_⟩
      rw [hs.noCoreResults (by rw [harea]; rfl)]
      exact .nil

end Sides

end Plan

/-! ### Instructions about both sides of a function -/

/-- The instructions find what they need next to the functions on both sides, and they define each
temporary once, of those that were handed out between two points of the sequence. -/
structure Linked (abi : Abi) (f : Linkage) (Γ : Contents) (code : List Instruction) (Γ' : Contents)
    (k k' : Nat) : Prop where
  /-- They find what they need. -/
  typed : TypedCode abi f Γ code Γ'
  /-- They define each temporary once. -/
  numbered : Numbered k (definedIn code) k'

section Linked

variable {abi : Abi} {f : Linkage} {Γ Γ' Γ'' Δ : Contents} {code more : List Instruction}
  {i : Instruction} {ls : List Local} {k k₁ k' : Nat}

theorem Emitted.linked (h : Emitted abi Γ code Γ' k k') (f : Linkage) :
    Linked abi f Γ code Γ' k k' :=
  ⟨h.typed f, h.numbered⟩

theorem Linked.append (h : Linked abi f Γ code Γ' k k₁) (h' : Linked abi f Γ' more Γ'' k₁ k') :
    Linked abi f Γ (code ++ more) Γ'' k k' := by
  refine ⟨h.typed.append h'.typed, ?_⟩
  rw [definedIn_append]
  exact h.numbered.append h'.numbered

theorem TypedStep.linked (h : TypedStep abi f Γ i Δ) (hb : i.bodies = [])
    (hn : Numbered k i.results k') : Linked abi f Γ [i] (Δ ++ Γ) k k' :=
  ⟨h.single, (definedIn_singleton hb).symm ▸ hn⟩

variable (abi f) in
theorem linked_argsOf (h : ls.length = f.params.length) (hn : Numbered k ls k') :
    ∃ Γ, Linked abi f [] (Plan.argsOf ls) Γ k k' ∧ Γ.Hold ls (words f.params) := by
  obtain ⟨Γ, htyped, hold⟩ := typed_argsOf h
  exact ⟨Γ, ⟨htyped, (definedIn_argsOf ls).symm ▸ hn⟩, hold⟩

end Linked

/-! ### Whole plans -/

namespace Signature

/-- The words that the plan of what is left to do later takes: those that went back. -/
def backParams (sig : Signature) : List CoreType :=
  if sig.hasReturnPointer then [.i32] else sig.coreResults

theorem backParams_of_area {sig : Signature} {area : Layout} (h : sig.returnArea = some area) :
    sig.backParams = [.i32] := by
  rw [backParams, hasReturnPointer, h]
  rfl

theorem backParams_of_words {sig : Signature} (h : sig.returnArea = none) :
    sig.backParams = sig.coreResults := by
  rw [backParams, hasReturnPointer, h]
  rfl

/-- What a plan on the caller side has on both sides: the core function, which it calls, and the
native results, which it ends with. -/
def importLinkage (sig : Signature) (abi : Abi) : Linkage where
  core := some (sig.coreParams, sig.coreResults)
  returns := some (natives (sig.resultTypes.map abi.shape))

/-- What a plan on the callee side has on both sides: the words it takes and ends with as a core
function, and the implementation, which it calls. -/
def exportLinkage (sig : Signature) (abi : Abi) : Linkage where
  params := sig.coreParams
  implementation := some (sig.paramTypes.map abi.shape, sig.resultTypes.map abi.shape)
  returns := some (words sig.coreResults)

end Signature

namespace FunctionPlan

/-- What a plan has on both sides. -/
def linkage (p : FunctionPlan) (abi : Abi) : Linkage :=
  match p.direction with
  | .imported => p.signature.importLinkage abi
  | .exported => p.signature.exportLinkage abi

/-- The temporaries that a plan has from the start: the arguments on the caller side. -/
def inputs (p : FunctionPlan) : List Local :=
  match p.direction with
  | .imported => p.params
  | .exported => []

/-- The body of a plan and that of what is left to do later. -/
def bodies (p : FunctionPlan) : List Body :=
  ⟨p.inputs, p.body, []⟩ :: p.postReturn.toList.map fun post => ⟨[], post.body, []⟩

/-- All temporaries that a plan defines. -/
def definitions (p : FunctionPlan) : List Local :=
  p.bodies.flatMap Body.definitions

/-- All temporaries that a plan reads. -/
def uses (p : FunctionPlan) : List Local :=
  p.bodies.flatMap Body.uses

/-- Every temporary of a plan is read where it is in scope, and the parameters of a core function
are those that instructions name. -/
structure WellScoped (p : FunctionPlan) : Prop where
  /-- The body starts with the arguments on the caller side, and with nothing on the callee side. -/
  body : Scoped p.inputs p.body
  /-- What is left to do later starts with nothing. -/
  post : ∀ post ∈ p.postReturn, Scoped [] post.body
  /-- Parameters on the callee side are named, and nothing else is. -/
  named : p.direction = .exported → namedIn p.body = p.params
  /-- Parameters of what is left to do later are named, and nothing else is. -/
  postNamed : ∀ post ∈ p.postReturn, namedIn post.body = post.params

/-- Every temporary of a plan holds what the instructions that read it need. -/
structure WellTyped (abi : Abi) (p : FunctionPlan) : Prop where
  /-- There is an argument for each parameter on the caller side. -/
  params : p.direction = .imported → p.params.length = p.signature.paramTypes.length
  /-- The body finds what it needs. -/
  body : ∃ Γ, TypedCode abi (p.linkage abi)
    (p.inputs.zip (natives (p.signature.paramTypes.map abi.shape))) p.body Γ
  /-- The body ends the plan. -/
  finish : ∃ code values, p.body = code ++ [.finish values]
  /-- What is left to do later finds what it needs. -/
  post : ∀ post ∈ p.postReturn, ∃ Γ,
    TypedCode abi { params := p.signature.backParams } [] post.body Γ
  /-- No temporary is defined twice, so it holds what the one instruction says that defines it. -/
  nodup : p.definitions.Nodup

end FunctionPlan

/-- What is so of the plan of what is left to do later. -/
structure MadePost (abi : Abi) (sig : Signature) (post : PostReturnPlan) (k k' : Nat) : Prop where
  /-- It finds what it needs, and defines each temporary once. -/
  linked : ∃ Γ, Linked abi { params := sig.backParams } [] post.body Γ k k'
  /-- Its parameters are named, and nothing else is. -/
  named : namedIn post.body = post.params

/-- What is so of a body that ends a plan. -/
structure MadeBody (abi : Abi) (f : Linkage) (Γ : Contents) (body : List Instruction) (k k' : Nat) :
    Prop where
  /-- It finds what it needs, and defines each temporary once. -/
  linked : ∃ Γ', Linked abi f Γ body Γ' k k'
  /-- It ends the plan. -/
  finish : ∃ code values, body = code ++ [.finish values]

/-- The last instruction of a body. -/
theorem Linked.made {f : Linkage} {Γ Γ' : Contents} {code : List Instruction}
    {values : List Local} {returns : List Content} {k k' : Nat} (h : Linked abi f Γ code Γ' k k')
    (hr : f.returns = some returns) (hv : Γ'.Hold values returns) :
    MadeBody abi f Γ (code ++ [.finish values]) k k' :=
  ⟨⟨_, h.append ((TypedStep.finish hr hv).linked rfl (numbered_nil (Nat.le_refl k')))⟩,
    ⟨code, values, rfl⟩⟩

namespace Plan

variable {abi : Abi} {sig : Signature}

theorem meets_freeBack (hs : Signed abi sig) (k : Nat) :
    (freeBack abi sig.resultTypes sig.coreResults.length sig.returnArea).Meets k fun r k' =>
      ∃ Γ Γ' k₁, Linked abi { params := sig.backParams } [] (argsOf r.1) Γ k k₁ ∧
        Emitted abi Γ r.2 Γ' k₁ k' := by
  cases harea : sig.returnArea with
  | some area =>
    rw [Signature.backParams_of_area harea]
    obtain ⟨Γ, hargs, hold⟩ := linked_argsOf abi { params := [.i32] } rfl
      (numbered_singleton k)
    refine meets_bind_fresh ((meets_freeAll sig.resultTypes (List.forall₂_cons.1 hold).1 _).bind
      fun freeing k' ⟨Γ', hfreeing⟩ => meets_pure ⟨Γ, Γ', _, hargs, hfreeing⟩)
  | none =>
    rw [Signature.backParams_of_words harea]
    refine (meets_freshList _ k).bind fun ls k₁ ⟨hl, hn⟩ => ?_
    obtain ⟨Γ, hargs, hold⟩ := linked_argsOf abi { params := sig.coreResults } hl hn
    match hids : sig.resultTypes, hs.single harea with
    | [], _ => exact meets_pure ⟨Γ, Γ, k₁, hargs, emitted_nil Γ k₁⟩
    | [id], _ =>
      have hwords : Γ.Hold ls (words (sig.flatResults ++ [])) := by
        rwa [List.append_nil, ← hs.coreResults harea]
      exact (freesWordsTyped_freeFlat abi (depthBound abi) Γ _ _ _ [] k₁ (flatten_single hs hids)
        hwords).bind fun r k' ⟨Γ', hfreeing, _⟩ => meets_pure ⟨Γ, Γ', k₁, hargs, hfreeing⟩

theorem meets_postReturn (hs : Signed abi sig) (name : String) (k : Nat) :
    (postReturn abi sig name).Meets k fun post k' => MadePost abi sig post k k' := by
  rw [postReturn_eq]
  refine (meets_freeBack hs k).bind fun ⟨params, freeing⟩ k' ⟨Γ, Γ', k₁, hargs, hfreeing⟩ =>
    meets_pure ⟨⟨Γ', hargs.append (hfreeing.linked _)⟩, ?_⟩
  rw [namedIn_append, hfreeing.namedIn_eq, namedIn_argsOf, List.append_nil]

theorem meets_cleanup (hs : Signed abi sig) (name : String) (k : Nat) :
    (cleanup abi sig name).Meets k fun post? k' => k ≤ k' ∧
      ∀ post ∈ post?, MadePost abi sig post k k' := by
  unfold cleanup
  split
  · rw [← bind_pure_comp]
    refine (meets_postReturn hs name k).bind fun post k' hpost => meets_pure ?_
    obtain ⟨Γ, hlinked⟩ := hpost.linked
    exact ⟨hlinked.numbered.le, fun _ hm => Option.some.inj hm ▸ hpost⟩
  · exact meets_pure ⟨Nat.le_refl k, fun _ hm => nomatch hm⟩

theorem meets_imported (hs : Signed abi sig) (hc : Abi.CoreWords sig) (module : Option String)
    (name : String) (k : Nat) : (imported abi sig module name).Meets k fun r k' =>
      r.1.length = sig.paramTypes.length ∧ ∃ k₁, Numbered k r.1 k₁ ∧
        MadeBody abi (sig.importLinkage abi)
          (r.1.zip (natives (sig.paramTypes.map abi.shape))) r.2 k₁ k' := by
  rw [imported_eq]
  refine (meets_freshList _ k).bind fun params k₁ ⟨hl, hn⟩ => ?_
  have hparams : Contents.Hold (params.zip (natives (sig.paramTypes.map abi.shape))) params
      (natives (sig.paramTypes.map abi.shape)) := by
    simpa using Contents.hold_zip (by simpa using hl) []
  refine (meets_lowerInto hparams hs.params k₁).bind fun ⟨lowering, args⟩ k₂ ⟨Γ₂, hlow, hargs⟩ => ?_
  refine (meets_reserve abi sig.returnArea Γ₂ k₂).bind
    fun ⟨reserving, pointer⟩ k₃ ⟨Γ₃, hres, hptr⟩ => ?_
  refine (meets_freshList _ k₃).bind fun results k₄ ⟨hresults, hn'⟩ => ?_
  have htakes : Γ₃.Hold (args ++ pointer) (words sig.coreParams) := by
    rw [hc.coreParams, words_append]
    exact (hargs.mono hres.subset).append hptr
  have hcall : TypedStep abi (sig.importLinkage abi) Γ₃ (.callCore module name (args ++ pointer)
      results) (results.zip (words sig.coreResults)) := .callCore module name rfl htakes hresults
  have hgives := Contents.hold_zip (hresults.trans (length_words _).symm) Γ₃
  refine (meets_receive hs hgives (hptr.mono (List.subset_append_right _ _)) k₄).bind
    fun ⟨lifting, values⟩ k' ⟨Γ', hlift, hvalues⟩ => meets_pure ⟨hl, k₁, hn, ?_⟩
  exact ((((hlow.append hres).linked _).append (hcall.linked rfl hn')).append
    (hlift.linked _)).made rfl hvalues

theorem meets_exported (hs : Signed abi sig) (hc : Abi.CoreWords sig) (name : String) (k : Nat) :
    (exported abi sig name).Meets k fun r k' => ∃ k₁,
      MadeBody abi (sig.exportLinkage abi) [] r.2.1 k k₁ ∧ namedIn r.2.1 = r.1 ∧ k₁ ≤ k' ∧
        ∀ post ∈ r.2.2, MadePost abi sig post k₁ k' := by
  rw [exported_eq]
  refine (meets_freshList _ k).bind fun params k₁ ⟨hl, hn⟩ => ?_
  obtain ⟨Γ₁, hargs, hparams⟩ :=
    linked_argsOf abi (sig.exportLinkage abi) hl hn
  rw [Signature.exportLinkage, hc.coreParams] at hparams
  refine (meets_liftFrom hs.params hparams k₁).bind
    fun ⟨lifting, args, rest⟩ k₂ ⟨Γ₂, hlift, hnative, hrest⟩ => ?_
  refine (meets_pointerOf hrest k₂).bind fun ptr? k₃ ⟨hk, hptr⟩ => ?_
  obtain rfl : k₂ = k₃ := hk.symm
  refine (meets_freshList _ k₂).bind fun results k₄ ⟨hresults, hn'⟩ => ?_
  have hcall : TypedStep abi (sig.exportLinkage abi) Γ₂ (.callNative name args results)
      (results.zip (natives (sig.resultTypes.map abi.shape))) :=
    .callNative name rfl hnative (hresults.trans (List.length_map _).symm)
  have hgives : Contents.Hold (results.zip (natives (sig.resultTypes.map abi.shape)) ++ Γ₂) results
      (natives (sig.resultTypes.map abi.shape)) :=
    Contents.hold_zip (by simpa using hresults) Γ₂
  refine (meets_lowerBack hs hgives (hptr.mono (List.subset_append_right _ _)) k₄).bind
    fun ⟨lowering, values⟩ k₅ ⟨Γ₅, hlow, hvalues⟩ => ?_
  refine (meets_cleanup hs name k₅).bind fun post? k' ⟨hle, hpost⟩ =>
    meets_pure ⟨k₅, ?_, ?_, hle, hpost⟩
  · exact (((hargs.append (hlift.linked _)).append (hcall.linked rfl hn')).append
      (hlow.linked _)).made rfl hvalues
  · have hcalling : namedIn [.callNative name args results] = [] := rfl
    have hending : namedIn [.finish values] = [] := rfl
    simp only [namedIn_append, namedIn_argsOf, hlift.namedIn_eq, hlow.namedIn_eq, hcalling, hending,
      List.append_nil]

end Plan

/-- What is so of a plan that was generated between two points of the sequence of temporaries. -/
structure FunctionPlan.Made (abi : Abi) (p : FunctionPlan) (k k' : Nat) : Prop where
  /-- Every temporary holds what the instructions that read it need. -/
  typed : p.WellTyped abi
  /-- Every temporary is read where it is in scope. -/
  inScope : p.WellScoped
  /-- No temporary is defined twice, or outside of the two points. -/
  numbered : Numbered k p.definitions k'

namespace Abi

open Plan

variable {abi : Abi} {sig : Signature} {func : TypeId}

theorem made_imported {module : Option String} {name : String} {params : List Local}
    {body : List Instruction} {k k₁ k' : Nat} (hl : params.length = sig.paramTypes.length)
    (hn : Numbered k params k₁) (h : MadeBody abi (sig.importLinkage abi)
      (params.zip (natives (sig.paramTypes.map abi.shape))) body k₁ k') :
    FunctionPlan.Made abi ⟨name, module, .imported, sig, params, body, none⟩ k k' := by
  obtain ⟨⟨Γ, hbody⟩, hfinish⟩ := h
  have hdefs : Numbered k (FunctionPlan.definitions
      ⟨name, module, .imported, sig, params, body, none⟩) k' := by
    simpa [FunctionPlan.definitions, FunctionPlan.bodies, FunctionPlan.inputs, Body.definitions]
      using hn.append hbody.numbered
  have hscoped := hbody.typed.scoped.1
  rw [Contents.map_fst_zip (by simpa using hl)] at hscoped
  exact ⟨⟨fun _ => hl, ⟨Γ, hbody.typed⟩, hfinish, nofun, hdefs.nodup⟩,
    ⟨hscoped, nofun, nofun, nofun⟩, hdefs⟩

theorem made_exported {module : Option String} {name : String} {params : List Local}
    {body : List Instruction} {post? : Option PostReturnPlan} {k k₁ k' : Nat}
    (h : MadeBody abi (sig.exportLinkage abi) [] body k k₁) (hparams : namedIn body = params)
    (hle : k₁ ≤ k') (hpost : ∀ post ∈ post?, MadePost abi sig post k₁ k') :
    FunctionPlan.Made abi ⟨name, module, .exported, sig, params, body, post?⟩ k k' := by
  obtain ⟨⟨Γ, hbody⟩, hfinish⟩ := h
  have hdefs : Numbered k (FunctionPlan.definitions
      ⟨name, module, .exported, sig, params, body, post?⟩) k' := by
    have hlater : Numbered k₁ (post?.toList.flatMap fun post => definedIn post.body) k' := by
      cases post? with
      | none => exact numbered_nil hle
      | some post =>
        obtain ⟨Γ', hlinked⟩ := (hpost post rfl).linked
        simpa using hlinked.numbered
    simpa [FunctionPlan.definitions, FunctionPlan.bodies, FunctionPlan.inputs, Body.definitions,
      List.flatMap_map] using hbody.numbered.append hlater
  refine ⟨⟨nofun, ⟨Γ, ?_⟩, hfinish, fun post hm => ?_, hdefs.nodup⟩,
    ⟨hbody.typed.scoped.1, fun post hm => ?_, fun _ => hparams,
      fun post hm => (hpost post hm).named⟩, hdefs⟩
  · exact hbody.typed
  · obtain ⟨Γ', hlinked⟩ := (hpost post hm).linked
    exact ⟨Γ', hlinked.typed⟩
  · obtain ⟨Γ', hlinked⟩ := (hpost post hm).linked
    exact hlinked.typed.scoped.1

theorem meets_planWith (abi : Abi) (module : Option String) (name : String) (func : TypeId)
    (direction : Direction) (k : Nat) :
    (abi.planWith module name func direction).Meets k fun p k' =>
      abi.functionSignature func = .ok p.signature ∧ p.Made abi k k' := by
  refine meets_bind_liftM fun sig hsig => ?_
  have hs := signed_of_functionSignature hsig
  have hc := coreWords_of_functionSignature hsig
  cases direction with
  | imported =>
    exact (meets_imported hs hc module name k).bind fun ⟨params, body⟩ k' ⟨hl, k₁, hn, h⟩ =>
      meets_pure ⟨hsig, made_imported hl hn h⟩
  | exported =>
    exact (meets_exported hs hc name k).bind fun ⟨params, body, post?⟩ k' ⟨k₁, h, hp, hle, hpost⟩ =>
      meets_pure ⟨hsig, made_exported h hp hle hpost⟩

/-- Every plan is well typed, wherever its temporaries start; those of `Abi.plan` start at zero.
Each temporary holds a word of one kind or a native value of one type, as the instruction says that
defines it, and each instruction reads what it needs, on both sides of the function as its
signature says. -/
theorem plan_well_typed (abi : Abi) (module : Option String) (name : String) (func : TypeId)
    (direction : Direction) (k : Nat) (p : FunctionPlan)
    (h : ((abi.planWith module name func direction).run.run k).1 = .ok p) :
    abi.functionSignature func = .ok p.signature ∧ p.WellTyped abi := by
  have hgives : (abi.planWith module name func direction).Gives k p
      ((abi.planWith module name func direction).run.run k).2 := Prod.ext h rfl
  obtain ⟨hsig, hmade⟩ := (meets_planWith abi module name func direction k).2 p _ hgives
  exact ⟨hsig, hmade.typed⟩

theorem plan_well_typed_packet :
    (∃ p, packet.plan (some "host") "shuffle" ⟨4⟩ .imported = .ok p ∧ p.WellTyped packet) ∧
      ∃ p, packet.plan (some "host") "shuffle" ⟨4⟩ .exported = .ok p ∧ p.WellTyped packet := by
  constructor
  · exact ⟨_, rfl, (plan_well_typed packet (some "host") "shuffle" ⟨4⟩ .imported 0 _ rfl).2⟩
  · exact ⟨_, rfl, (plan_well_typed packet (some "host") "shuffle" ⟨4⟩ .exported 0 _ rfl).2⟩

end Abi

/-! ### Several plans -/

/-- A function that a plan is to be made of. -/
structure PlanRequest where
  /-- The types, and how they are passed. -/
  abi : Abi
  /-- The module that the function is imported from or exported in. -/
  module : Option String
  /-- The name of the function. -/
  name : String
  /-- The function node. -/
  func : TypeId
  /-- The side of the boundary. -/
  direction : Direction

/-- Makes the plan. -/
def PlanRequest.plan (r : PlanRequest) : PlanM FunctionPlan :=
  r.abi.planWith r.module r.name r.func r.direction

namespace FunctionPlan

variable {p : FunctionPlan} {plans : List FunctionPlan}

theorem WellScoped.bodies (h : p.WellScoped) : ∀ b ∈ p.bodies, b.WellScoped [] := by
  refine List.forall_mem_cons.2 ⟨⟨?_, List.nil_subset _⟩, fun b hb => ?_⟩
  · rw [List.append_nil]
    exact h.body
  · obtain ⟨post, hpost, rfl⟩ := List.mem_map.1 hb
    exact ⟨h.post post (Option.mem_toList.1 hpost), List.nil_subset _⟩

/-- An instruction is in one of the bodies. -/
theorem exists_body {i : Instruction} (h : i ∈ p.instructions) :
    ∃ b ∈ p.bodies, i ∈ allNested b.code ∧ b.yields = [] := by
  obtain h | h := List.mem_append.1 h
  · exact ⟨_, List.mem_cons_self, h, rfl⟩
  · cases hpost : p.postReturn with
    | none =>
      rw [hpost] at h
      cases h
    | some post =>
      rw [hpost] at h
      refine ⟨⟨[], post.body, []⟩, List.mem_cons_of_mem _ (List.mem_map.2 ⟨post, ?_, rfl⟩), h, rfl⟩
      rw [hpost]
      exact List.mem_singleton_self post

/-- Among plans that define no temporary twice, what a list body or an arm defines is one of their
temporaries, and is read nowhere but there. -/
theorem confinedIn_uses (hn : (plans.flatMap definitions).Nodup)
    (hs : ∀ p ∈ plans, p.WellScoped) (hp : p ∈ plans) {i : Instruction} (hi : i ∈ p.instructions)
    {b : Body} (hb : b ∈ i.bodies) :
    b.ConfinedIn (plans.flatMap uses) ∧ b.definitions ⊆ plans.flatMap definitions := by
  obtain ⟨b', hb', hi, hyields⟩ := exists_body hi
  have hbodies : ∀ b ∈ plans.flatMap bodies, b.WellScoped [] := fun b hb => by
    obtain ⟨p, hp, hb⟩ := List.mem_flatMap.1 hb
    exact (hs p hp).bodies b hb
  have hmem : b' ∈ plans.flatMap bodies := List.mem_flatMap.2 ⟨p, hp, hb'⟩
  have hdefs : plans.flatMap definitions = (plans.flatMap bodies).flatMap Body.definitions :=
    List.flatMap_assoc.symm
  have huses : plans.flatMap uses = (plans.flatMap bodies).flatMap Body.uses :=
    List.flatMap_assoc.symm
  rw [hdefs] at hn
  obtain ⟨-, hcode, hbinds⟩ := List.nodup_append'.1 ((List.nodup_flatMap.1 hn).1 b' hmem)
  have hscoped := (hbodies b' hmem).code
  rw [List.append_nil] at hscoped
  have hinside := hscoped.inside ⟨hcode, List.disjoint_symm hbinds⟩ hi hb
  have hconfined : b.ConfinedIn b'.uses := by
    rw [Body.uses, hyields, List.append_nil]
    exact hinside.confined
  have hsub : b.definitions ⊆ b'.definitions :=
    List.subset_append_of_subset_right _ hinside.defined
  rw [huses, hdefs]
  refine ⟨hconfined.flatMap hsub hmem hn (List.disjoint_nil_right _) fun b hb =>
    (hbodies b hb).uses_subset, fun l hl => List.mem_flatMap.2 ⟨b', hmem, hsub hl⟩⟩

end FunctionPlan

end ComponentAbi
