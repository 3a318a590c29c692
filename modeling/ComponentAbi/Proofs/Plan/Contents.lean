import ComponentAbi.Plan.Generate
import ComponentAbi.Proofs.Plan.Scoping
import Mathlib.Data.List.Forall2

/-!
# What temporaries hold

A temporary holds a word of some kind or a native value of some type (`Content`), and the
instruction that defines it says which: `TypedStep Γ i Δ` says that instruction `i` can read what it
reads from the contents `Γ`, and that it defines the contents `Δ`. `TypedCode` is the same for
instructions in a row and `TypedArms` for the arms of a sum, which have to yield what the sum
needs.

Instructions that are typed read nothing that is out of scope (`TypedCode.scoped`).
-/

namespace ComponentAbi

/-- What a temporary holds. -/
inductive Content where
  /-- A word. -/
  | word (kind : CoreType)
  /-- A native value. -/
  | native (shape : Shape)

namespace Content

/-- Words of some kinds. -/
def words (kinds : List CoreType) : List Content :=
  kinds.map word

/-- Native values of some types. -/
def natives (shapes : List Shape) : List Content :=
  shapes.map native

/-- A native value of every field. -/
def parts (fields : List (String × Shape)) : List Content :=
  fields.map fun field => native field.2

theorem words_append (kinds more : List CoreType) :
    words (kinds ++ more) = words kinds ++ words more :=
  List.map_append

@[simp] theorem length_words (kinds : List CoreType) : (words kinds).length = kinds.length :=
  List.length_map _

@[simp] theorem length_natives (shapes : List Shape) : (natives shapes).length = shapes.length :=
  List.length_map _

@[simp] theorem length_parts (fields : List (String × Shape)) :
    (parts fields).length = fields.length :=
  List.length_map _

end Content

open Content

/-- What some temporaries hold. -/
abbrev Contents := List (Local × Content)

namespace Contents

variable {Γ Δ : Contents} {ls ls' : List Local} {cs cs' : List Content}

/-- The temporaries hold what is said. -/
def Hold (Γ : Contents) : List Local → List Content → Prop :=
  List.Forall₂ fun l c => (l, c) ∈ Γ

theorem Hold.mono (h : Γ.Hold ls cs) (hs : Γ ⊆ Δ) : Δ.Hold ls cs :=
  List.Forall₂.imp (fun _ _ hm => hs hm) h

theorem Hold.append (h : Γ.Hold ls cs) (h' : Γ.Hold ls' cs') : Γ.Hold (ls ++ ls') (cs ++ cs') :=
  List.rel_append h h'

theorem hold_singleton {l : Local} {c : Content} (h : (l, c) ∈ Γ) : Γ.Hold [l] [c] :=
  .cons h .nil

theorem hold_pair {l l' : Local} {c c' : Content} (h : (l, c) ∈ Γ) (h' : (l', c') ∈ Γ) :
    Γ.Hold [l, l'] [c, c'] :=
  .cons h (hold_singleton h')

/-- Temporaries that are defined together. -/
theorem hold_zip (h : ls.length = cs.length) (Γ : Contents) : Hold (ls.zip cs ++ Γ) ls cs := by
  induction ls generalizing cs with
  | nil =>
    cases cs with
    | nil => exact .nil
    | cons c cs => cases h
  | cons l ls ih =>
    cases cs with
    | nil => cases h
    | cons c cs =>
      exact .cons (List.mem_cons_self) ((ih (Nat.succ.inj h)).mono (List.subset_cons_self _ _))

theorem map_fst_zip (h : ls.length = cs.length) : (ls.zip cs).map Prod.fst = ls :=
  List.map_fst_zip (Nat.le_of_eq h)

theorem Hold.subset (h : Γ.Hold ls cs) : ls ⊆ Γ.map Prod.fst := by
  intro l hl
  induction h with
  | nil => cases hl
  | cons hm _ ih =>
    obtain rfl | hl := List.mem_cons.1 hl
    · exact List.mem_map_of_mem hm
    · exact ih hl

end Contents

/-- What a plan has to do with the functions on both sides of it. -/
structure Linkage where
  /-- The words that the plan itself takes as a core function. -/
  params : List CoreType := []
  /-- The words that the core function takes and answers that the plan may call. -/
  core : Option (List CoreType × List CoreType) := none
  /-- The types that the implementation takes and answers that the plan may call. -/
  implementation : Option (List Shape × List Shape) := none
  /-- What the plan ends with, if it ends with anything. -/
  returns : Option (List Content) := none

/-- What is expected of the arm of a case. -/
structure ArmType where
  /-- The case index. -/
  index : Nat
  /-- The case label. -/
  label : String
  /-- The type of the payload that the arm starts with, if it does. -/
  payload : Option Shape
  /-- What the arm yields. -/
  yields : List Content

/-- What is expected of the arms of some cases, where `binds` and `yields` are what an arm starts
with and yields, by the type of the payload. -/
def armTypes (binds : Option Shape → Option Shape) (yields : Option Shape → List Content)
    (cases : List (String × Option Shape)) : List ArmType :=
  cases.zipIdx.map fun (case, index) => ⟨index, case.1, binds case.2, yields case.2⟩

variable (abi : Abi) (f : Linkage)

mutual

/-- The instruction finds what it needs in `Γ`, and it defines what the last argument says. -/
inductive TypedStep : Contents → Instruction → Contents → Prop
  | arg {Γ : Contents} {index : Nat} {kind : CoreType} {dst : Local}
    (param : f.params[index]? = some kind) : TypedStep Γ (.arg index dst) [(dst, .word kind)]
  | const {Γ : Contents} (kind : CoreType) (value : Nat) (dst : Local) :
    TypedStep Γ (.const kind value dst) [(dst, .word kind)]
  | lower {Γ : Contents} {l : Leaf} {src : Local} (dst : Local)
    (src_mem : (src, .native (.leaf l)) ∈ Γ) :
    TypedStep Γ (.lower l.wordKind src dst) [(dst, .word l.wordKind.core)]
  | lift {Γ : Contents} {l : Leaf} {src : Local} (dst : Local)
    (src_mem : (src, .word l.wordKind.core) ∈ Γ) :
    TypedStep Γ (.lift l.wordKind src dst) [(dst, .native (.leaf l))]
  | bitcast {Γ : Contents} {cast : Bitcast} {kind kind' : CoreType} {src : Local} (dst : Local)
    (ends : cast.ends = some (kind, kind')) (src_mem : (src, .word kind) ∈ Γ) :
    TypedStep Γ (.bitcast cast src dst) [(dst, .word kind')]
  | destructure {Γ : Contents} {kind : ProductKind} {fields : List (String × Shape)}
    {src : Local} {locals : List Local} (src_mem : (src, .native (.product kind fields)) ∈ Γ)
    (length_eq : locals.length = fields.length) :
    TypedStep Γ (.destructure kind.title src locals) (locals.zip (parts fields))
  | construct {Γ : Contents} {kind : ProductKind} {fields : List (String × Shape)}
    {locals : List Local} (dst : Local) (hold : Γ.Hold locals (parts fields)) :
    TypedStep Γ (.construct kind.title locals dst) [(dst, .native (.product kind fields))]
  | stringLower {Γ : Contents} {src : Local} (ptr len : Local)
    (src_mem : (src, .native .string) ∈ Γ) :
    TypedStep Γ (.stringLower src ptr len) [(ptr, .word .i32), (len, .word .i32)]
  | stringLift {Γ : Contents} {ptr len : Local} (dst : Local)
    (ptr_mem : (ptr, .word .i32) ∈ Γ) (len_mem : (len, .word .i32) ∈ Γ) :
    TypedStep Γ (.stringLift ptr len dst) [(dst, .native .string)]
  | listLower {Γ Γ' : Contents} {element : TypeId} {layout : Layout} {src item addr : Local}
    {body : List Instruction} (ptr len : Local) (src_mem : (src, .native (.list element)) ∈ Γ)
    (layout_eq : (abi.shape element).layout = .ok layout)
    (body_typed :
      TypedCode ((item, .native (abi.shape element)) :: (addr, .word .i32) :: Γ) body Γ') :
    TypedStep Γ (.listLower (abi.describe element) layout src ptr len item addr body)
      [(ptr, .word .i32), (len, .word .i32)]
  | listLift {Γ Γ' : Contents} {element : TypeId} {layout : Layout} {ptr len addr item : Local}
    {body : List Instruction} (dst : Local) (ptr_mem : (ptr, .word .i32) ∈ Γ)
    (len_mem : (len, .word .i32) ∈ Γ) (layout_eq : (abi.shape element).layout = .ok layout)
    (body_typed : TypedCode ((addr, .word .i32) :: Γ) body Γ')
    (item_mem : (item, .native (abi.shape element)) ∈ Γ') :
    TypedStep Γ (.listLift (abi.describe element) layout ptr len addr body item dst)
      [(dst, .native (.list element))]
  | variantLower {Γ : Contents} {kind : SumKind} {cases : List (String × Option Shape)}
    {slots : List CoreType} {src : Local} {results : List Local} {arms : List Arm}
    (src_mem : (src, .native (.sum kind cases)) ∈ Γ)
    (flatten_eq : Shape.flattenCases cases = .ok slots)
    (length_eq : results.length = (CoreType.i32 :: slots).length)
    (arms_typed : TypedArms Γ arms (armTypes id (fun _ => words (.i32 :: slots)) cases)) :
    TypedStep Γ (.variantLower kind.title src results arms) (results.zip (words (.i32 :: slots)))
  | variantLift {Γ : Contents} {kind : SumKind} {cases : List (String × Option Shape)}
    {discriminant : Local} {arms : List Arm} (dst : Local)
    (discriminant_mem : (discriminant, .word .i32) ∈ Γ)
    (arms_typed : TypedArms Γ arms
      (armTypes (fun _ => none) (fun payload => natives payload.toList) cases)) :
    TypedStep Γ (.variantLift kind.title discriminant arms dst) [(dst, .native (.sum kind cases))]
  | matchCase {Γ : Contents} {kind : SumKind} {cases : List (String × Option Shape)} {src : Local}
    {arms : List Arm} (src_mem : (src, .native (.sum kind cases)) ∈ Γ)
    (arms_typed : TypedArms Γ arms (armTypes id (fun _ => []) cases)) :
    TypedStep Γ (.matchCase kind.title src arms) []
  | switch {Γ : Contents} {cases : List (String × Option Shape)} {types : List ArmType}
    {discriminant : Local} {arms : List Arm} (discriminant_mem : (discriminant, .word .i32) ∈ Γ)
    (sublist : types.Sublist (armTypes (fun _ => none) (fun _ => []) cases))
    (arms_typed : TypedArms Γ arms types) : TypedStep Γ (.switch discriminant arms) []
  | load {Γ : Contents} {base : Local} (width : MemoryWidth) (offset : Nat) (dst : Local)
    (base_mem : (base, .word .i32) ∈ Γ) :
    TypedStep Γ (.load width base offset dst) [(dst, .word width.core)]
  | store {Γ : Contents} {width : MemoryWidth} {src base : Local} (offset : Nat)
    (src_mem : (src, .word width.core) ∈ Γ) (base_mem : (base, .word .i32) ∈ Γ) :
    TypedStep Γ (.store width src base offset) []
  | alloc {Γ : Contents} (size align : Nat) (dst : Local) :
    TypedStep Γ (.alloc size align dst) [(dst, .word .i32)]
  | free {Γ : Contents} {ptr : Local} (size align : Nat) (ptr_mem : (ptr, .word .i32) ∈ Γ) :
    TypedStep Γ (.free ptr size align) []
  | freeString {Γ : Contents} {ptr len : Local} (ptr_mem : (ptr, .word .i32) ∈ Γ)
    (len_mem : (len, .word .i32) ∈ Γ) : TypedStep Γ (.freeString ptr len) []
  | freeList {Γ Γ' : Contents} {element : TypeId} {layout : Layout} {ptr len addr : Local}
    {body : List Instruction} (ptr_mem : (ptr, .word .i32) ∈ Γ) (len_mem : (len, .word .i32) ∈ Γ)
    (layout_eq : (abi.shape element).layout = .ok layout)
    (body_typed : TypedCode ((addr, .word .i32) :: Γ) body Γ') :
    TypedStep Γ (.freeList (abi.describe element) layout ptr len addr body) []
  | callCore {Γ : Contents} {takes gives : List CoreType} {args results : List Local}
    (module : Option String) (name : String) (core_eq : f.core = some (takes, gives))
    (hold : Γ.Hold args (words takes)) (length_eq : results.length = gives.length) :
    TypedStep Γ (.callCore module name args results) (results.zip (words gives))
  | callNative {Γ : Contents} {takes gives : List Shape} {args results : List Local}
    (name : String) (implementation_eq : f.implementation = some (takes, gives))
    (hold : Γ.Hold args (natives takes)) (length_eq : results.length = gives.length) :
    TypedStep Γ (.callNative name args results) (results.zip (natives gives))
  | finish {Γ : Contents} {values : List Local} {returns : List Content}
    (returns_eq : f.returns = some returns) (hold : Γ.Hold values returns) :
    TypedStep Γ (.finish values) []

/-- Each of the instructions finds what it needs in `Γ` or what those before it define. The last
argument is what there is at the end. -/
inductive TypedCode : Contents → List Instruction → Contents → Prop
  | nil (Γ : Contents) : TypedCode Γ [] Γ
  | cons {Γ Δ Γ' : Contents} {i : Instruction} {code : List Instruction}
    (head : TypedStep Γ i Δ) (tail : TypedCode (Δ ++ Γ) code Γ') : TypedCode Γ (i :: code) Γ'

/-- Each of the arms is as expected. -/
inductive TypedArms : Contents → List Arm → List ArmType → Prop
  | nil (Γ : Contents) : TypedArms Γ [] []
  | cons {Γ Γ' : Contents} {type : ArmType} {types : List ArmType} {payload : Option Local}
    {body : List Instruction} {yields : List Local} {arms : List Arm}
    (length_eq : payload.toList.length = type.payload.toList.length)
    (body_typed :
      TypedCode (payload.toList.zip (natives type.payload.toList) ++ Γ) body Γ')
    (hold : Γ'.Hold yields type.yields) (tail : TypedArms Γ arms types) :
    TypedArms Γ (⟨type.index, type.label, payload, body, yields⟩ :: arms) (type :: types)

end

variable {abi f} {Γ Γ' Γ'' Δ : Contents} {i : Instruction} {code more : List Instruction}
  {arms arms' : List Arm} {types types' : List ArmType}

theorem TypedStep.single (h : TypedStep abi f Γ i Δ) : TypedCode abi f Γ [i] (Δ ++ Γ) :=
  .cons h (.nil _)

theorem TypedCode.append (h : TypedCode abi f Γ code Γ') (h' : TypedCode abi f Γ' more Γ'') :
    TypedCode abi f Γ (code ++ more) Γ'' := by
  induction code generalizing Γ with
  | nil =>
    cases h
    exact h'
  | cons i code ih =>
    cases h with
    | cons head tail => exact .cons head (ih tail)

/-- What there is stays. -/
theorem TypedCode.subset (h : TypedCode abi f Γ code Γ') : Γ ⊆ Γ' := by
  induction code generalizing Γ with
  | nil =>
    cases h
    exact List.Subset.refl _
  | cons i code ih =>
    cases h with
    | cons head tail => exact List.Subset.trans (List.subset_append_right _ _) (ih tail)

theorem TypedArms.append (h : TypedArms abi f Γ arms types)
    (h' : TypedArms abi f Γ arms' types') :
    TypedArms abi f Γ (arms ++ arms') (types ++ types') := by
  induction arms generalizing types with
  | nil =>
    cases h
    exact h'
  | cons arm arms ih =>
    cases h with
    | cons length_eq body_typed hold tail => exact .cons length_eq body_typed hold (ih tail)

/-! ### Scopes -/

mutual

/-- An instruction that finds what it needs is in scope, and so are its bodies. -/
theorem TypedStep.scoped {Γ Δ : Contents} {i : Instruction} :
    TypedStep abi f Γ i Δ → i.reads ⊆ Γ.map Prod.fst ∧
      (∀ b ∈ i.bodies, b.WellScoped (Γ.map Prod.fst)) ∧ Δ.map Prod.fst = i.results
  | .arg _ | .const .. | .alloc .. => ⟨List.nil_subset _, List.forall_mem_nil _, rfl⟩
  | .lower _ h | .lift _ h | .bitcast _ _ h | .stringLower _ _ h | .load _ _ _ h | .free _ _ h =>
    ⟨(Contents.hold_singleton h).subset, List.forall_mem_nil _, rfl⟩
  | .stringLift _ h h' | .store _ h h' | .freeString h h' =>
    ⟨(Contents.hold_pair h h').subset, List.forall_mem_nil _, rfl⟩
  | .destructure h hl => ⟨(Contents.hold_singleton h).subset, List.forall_mem_nil _,
      Contents.map_fst_zip (by simpa using hl)⟩
  | .construct _ h => ⟨h.subset, List.forall_mem_nil _, rfl⟩
  | .listLower _ _ h _ hb => ⟨(Contents.hold_singleton h).subset,
      List.forall_mem_singleton.2 ⟨hb.scoped.1, List.nil_subset _⟩, rfl⟩
  | .listLift _ h h' _ hb hi => ⟨(Contents.hold_pair h h').subset,
      List.forall_mem_singleton.2 ⟨hb.scoped.1,
        List.cons_subset.2 ⟨hb.scoped.2 (List.mem_map_of_mem hi), List.nil_subset _⟩⟩, rfl⟩
  | .freeList h h' _ hb => ⟨(Contents.hold_pair h h').subset,
      List.forall_mem_singleton.2 ⟨hb.scoped.1, List.nil_subset _⟩, rfl⟩
  | .variantLower h _ hl ha => ⟨(Contents.hold_singleton h).subset, ha.scoped,
      Contents.map_fst_zip (by simpa using hl)⟩
  | .variantLift _ h ha | .matchCase h ha | .switch h _ ha =>
    ⟨(Contents.hold_singleton h).subset, ha.scoped, rfl⟩
  | .callCore _ _ _ h hl => ⟨h.subset, List.forall_mem_nil _,
      Contents.map_fst_zip (by simpa using hl)⟩
  | .callNative _ _ h hl => ⟨h.subset, List.forall_mem_nil _,
      Contents.map_fst_zip (by simpa using hl)⟩
  | .finish _ h => ⟨h.subset, List.forall_mem_nil _, rfl⟩

/-- Instructions that find what they need are in scope. -/
theorem TypedCode.scoped {Γ Γ' : Contents} {code : List Instruction} :
    TypedCode abi f Γ code Γ' → Scoped (Γ.map Prod.fst) code ∧
      Γ'.map Prod.fst ⊆ code.flatMap Instruction.results ++ Γ.map Prod.fst
  | .nil _ => ⟨.nil _, List.Subset.refl _⟩
  | .cons h hr => by
    obtain ⟨reads, bodies, results⟩ := h.scoped
    obtain ⟨rest, hsub⟩ := hr.scoped
    -- What the first instruction adds to the contents is in scope as its results.
    rw [List.map_append, results] at rest hsub
    refine ⟨.cons reads (fun b hb => (bodies b hb).code) (fun b hb => (bodies b hb).yields) rest,
      List.Subset.trans hsub fun l hl => ?_⟩
    rw [List.flatMap_cons, List.append_assoc]
    simpa [or_left_comm] using hl

/-- Arms that are as expected are in scope. -/
theorem TypedArms.scoped {Γ : Contents} {arms : List Arm} {types : List ArmType} :
    TypedArms abi f Γ arms types → ∀ b ∈ arms.map Arm.toBody, b.WellScoped (Γ.map Prod.fst)
  | .nil _ => List.forall_mem_nil _
  | .cons hl hb hy hr => by
    obtain ⟨code, hsub⟩ := hb.scoped
    rw [List.map_append, Contents.map_fst_zip (by simpa using hl)] at code hsub
    exact List.forall_mem_cons.2 ⟨⟨code, List.Subset.trans hy.subset hsub⟩, hr.scoped⟩

end

/-! ### What is the same in every plan -/

/-- The instruction is about the functions on both sides of a plan. -/
def Instruction.Linking : Instruction → Prop
  | arg .. | callCore .. | callNative .. | finish _ => True
  | _ => False

mutual

/-- Without functions on both sides there are no instructions about them. -/
theorem TypedStep.not_linking {Γ Δ : Contents} {i : Instruction} :
    TypedStep abi {} Γ i Δ → ¬i.Linking ∧
      ∀ b ∈ i.bodies, ∀ j ∈ Instruction.allNested b.code, ¬j.Linking
  | .const .. | .lower .. | .lift .. | .bitcast .. | .destructure .. | .construct ..
  | .stringLower .. | .stringLift .. | .load .. | .store .. | .alloc .. | .free ..
  | .freeString .. =>
    ⟨id, List.forall_mem_nil _⟩
  | .listLower _ _ _ _ hb | .listLift _ _ _ _ hb _ | .freeList _ _ _ hb =>
    ⟨id, List.forall_mem_singleton.2 hb.not_linking⟩
  | .variantLower _ _ _ ha | .variantLift _ _ ha | .matchCase _ ha | .switch _ _ ha =>
    ⟨id, ha.not_linking⟩
  | .arg h | .callCore _ _ h .. | .callNative _ h .. | .finish h .. => nomatch h

theorem TypedCode.not_linking {Γ Γ' : Contents} {code : List Instruction} :
    TypedCode abi {} Γ code Γ' → ∀ j ∈ Instruction.allNested code, ¬j.Linking
  | .nil _ => List.forall_mem_nil _
  | .cons h hr => by
    obtain ⟨hi, hb⟩ := h.not_linking
    rw [Instruction.allNested, Instruction.withNested_eq]
    refine List.forall_mem_append.2 ⟨List.forall_mem_cons.2 ⟨hi, fun j hj => ?_⟩, hr.not_linking⟩
    obtain ⟨b, hm, hj⟩ := List.mem_flatMap.1 hj
    exact hb b hm j hj

theorem TypedArms.not_linking {Γ : Contents} {arms : List Arm} {types : List ArmType} :
    TypedArms abi {} Γ arms types →
      ∀ b ∈ arms.map Arm.toBody, ∀ j ∈ Instruction.allNested b.code, ¬j.Linking
  | .nil _ => List.forall_mem_nil _
  | .cons _ hb _ hr => List.forall_mem_cons.2 ⟨hb.not_linking, hr.not_linking⟩

end

end ComponentAbi
