import ComponentAbi.Marshal.Lift
import ComponentAbi.Marshal.Lower
import ComponentAbi.Plan.Basic
import ComponentAbi.Proofs.Native.Basic

/-!
# What plans do

Plans are run over one memory. A temporary holds a core word or a native value, and a block of
instructions may use the temporaries of the blocks around it; those it defines are its own. What is
called is a parameter (`Host`).

A plan that uses a temporary before it is defined, or as something it does not hold, is stuck.

* `Plan.exec`, `Plan.execAll` : what an instruction does, and what a block does.
* `Plan.run` : what the body of a plan answers.
-/

namespace ComponentAbi

/-- What a temporary holds. -/
inductive Entry where
  /-- A core word. -/
  | word (w : Word)
  /-- A native value. -/
  | native (n : Native)
deriving Repr

/-- The error of a plan that is stuck. -/
def Plan.stuck : AbiError :=
  .typeMismatch "a temporary that fits the instruction" "another one"

namespace Entry

/-- The word that a temporary has to hold. -/
def toWord : Entry → Except AbiError Word
  | word w => .ok w
  | native _ => .error Plan.stuck

/-- The native value that a temporary has to hold. -/
def toNative : Entry → Except AbiError Native
  | native n => .ok n
  | word _ => .error Plan.stuck

end Entry

/-- What the temporaries hold that are defined. -/
def Env : Type := Local → Option Entry

namespace Env

/-- No temporary is defined. -/
def empty : Env :=
  fun _ => none

/-- Defines a temporary. -/
def set (env : Env) (dst : Local) (entry : Entry) : Env :=
  fun l => if l = dst then some entry else env l

/-- Defines as many temporaries as there is something for them to hold. -/
def setAll : Env → List Local → List Entry → Except AbiError Env
  | env, [], [] => .ok env
  | env, dst :: dsts, entry :: entries => (env.set dst entry).setAll dsts entries
  | _, _, _ => .error Plan.stuck

/-- What a temporary holds. -/
def get (env : Env) (l : Local) : Except AbiError Entry :=
  match env l with
  | some entry => .ok entry
  | none => .error Plan.stuck

/-- The word that a temporary holds. -/
def word (env : Env) (l : Local) : Except AbiError Word := do
  (← env.get l).toWord

/-- The address, length or case index that a temporary holds. -/
def index (env : Env) (l : Local) : Except AbiError Nat := do
  (← env.word l).expect .i32

/-- The native value that a temporary holds. -/
def native (env : Env) (l : Local) : Except AbiError Native := do
  (← env.get l).toNative

/-- The items of the list that a temporary holds. -/
def items (env : Env) (l : Local) : Except AbiError (List Native) := do
  match ← env.native l with
  | .list items => .ok items
  | _ => .error Plan.stuck

/-- The case that a temporary holds, and its payload. -/
def case (env : Env) (l : Local) : Except AbiError (Nat × Option Native) := do
  match ← env.native l with
  | .sum index payload => .ok (index, payload)
  | _ => .error Plan.stuck

/-- Defines the temporary of a payload, if there is one. -/
def setPayload (env : Env) : Option Local → Option Native → Except AbiError Env
  | some dst, some n => .ok (env.set dst (.native n))
  | none, none => .ok env
  | _, _ => .error Plan.stuck

end Env

namespace MemoryWidth

/-- The word that some bytes of memory are read as. Narrow ones are extended to a word. -/
def extend : MemoryWidth → Nat → Word
  | s8, n => .i32 (UInt8.ofNat n).toInt8.toInt32.toUInt32
  | s16, n => .i32 (UInt16.ofNat n).toInt16.toInt32.toUInt32
  | width, n => Word.ofBits width.core n

end MemoryWidth

/-- What a plan calls. -/
structure Host where
  /-- The core function. -/
  core : List Word → MemoryM (List Word)
  /-- The implementation. -/
  native : List Native → MemoryM (List Native)

namespace Plan

variable (host : Host) (args : List Word)

mutual

/-- What an instruction does: what it defines, and what it does to the memory. `args` are the
parameters of the core function that the plan is the body of. -/
def exec : Instruction → Env → MemoryM Env
  | .arg index dst, env =>
    match args[index]? with
    | some w => return env.set dst (.word w)
    | none => throw stuck
  | .const type value dst, env => return env.set dst (.word (Word.ofBits type value))
  | .lower kind src dst, env => do
    match ← liftM (env.native src) with
    | .atom a => return env.set dst (.word (Word.ofBits kind.core (← liftM (kind.encode a))))
    | _ => throw stuck
  | .lift kind src dst, env => do
    let w ← liftM (env.word src)
    let a ← liftM (w.expect kind.core >>= kind.decode)
    return env.set dst (.native (.atom a))
  | .bitcast cast src dst, env => do
    let w ← liftM (env.word src)
    return env.set dst (.word (← liftM (w.cast cast)))
  | .destructure _ src fields, env => do
    match ← liftM (env.native src) with
    | .product parts => liftM (env.setAll fields (parts.map .native))
    | _ => throw stuck
  | .construct _ fields dst, env => do
    let parts ← liftM (fields.mapM env.native)
    return env.set dst (.native (.product parts))
  | .stringLower src ptr len, env => do
    match ← liftM (env.native src) with
    | .text text => do
      let (start, length) ← lowerString text
      return (env.set ptr (.word (.ofNat start))).set len (.word (.ofNat length))
    | _ => throw stuck
  | .stringLift ptr len dst, env => do
    let start ← liftM (env.index ptr)
    let length ← liftM (env.index len)
    let text ← MemoryM.reading (liftString · start length)
    return env.set dst (.native (.text text))
  | .listLower _ layout src ptr len item addr body, env => do
    let items ← liftM (env.items src)
    let start ← MemoryM.alloc (layout.size * items.length) layout.align
    items.zipIdx.forM fun (n, i) => do
      let slot := Word.ofNat (start + i * layout.size)
      let _ ← execAll body ((env.set item (.native n)).set addr (.word slot))
    return (env.set ptr (.word (.ofNat start))).set len (.word (.ofNat items.length))
  | .listLift _ layout ptr len addr body item dst, env => do
    let start ← liftM (env.index ptr)
    let length ← liftM (env.index len)
    let items ← (List.range length).mapM fun i => do
      let slot := Word.ofNat (start + i * layout.size)
      let env ← execAll body (env.set addr (.word slot))
      liftM (env.native item)
    return env.set dst (.native (.list items))
  | .variantLower _ src results arms, env => do
    let (index, payload) ← liftM (env.case src)
    match ← execArm arms index payload env with
    | some yields => liftM (env.setAll results yields)
    | none => throw stuck
  | .variantLift _ discriminant arms dst, env => do
    let index ← liftM (env.index discriminant)
    match ← execArm arms index none env with
    | some [] => return env.set dst (.native (.sum index none))
    | some [entry] => return env.set dst (.native (.sum index (some (← liftM entry.toNative))))
    | _ => throw stuck
  | .matchCase _ src arms, env => do
    let (index, payload) ← liftM (env.case src)
    match ← execArm arms index payload env with
    | some _ => return env
    | none => throw stuck
  | .switch discriminant arms, env => do
    let index ← liftM (env.index discriminant)
    let _ ← execArm arms index none env
    return env
  | .load width base offset dst, env => do
    let start ← liftM (env.index base)
    let n ← MemoryM.reading (·.readNat (start + offset) width.size)
    return env.set dst (.word (width.extend n))
  | .store width src base offset, env => do
    let w ← liftM (env.word src)
    let start ← liftM (env.index base)
    MemoryM.writeNat (start + offset) width.size (← liftM (w.expect width.core))
    return env
  | .alloc size align dst, env => do
    return env.set dst (.word (.ofNat (← MemoryM.alloc size align)))
  | .free ptr size align, env => do
    MemoryM.free (← liftM (env.index ptr)) size align
    return env
  | .freeString ptr len, env => do
    let start ← liftM (env.index ptr)
    MemoryM.free start (← liftM (env.index len)) 1
    return env
  | .freeList _ layout ptr len addr body, env => do
    let start ← liftM (env.index ptr)
    let length ← liftM (env.index len)
    (List.range length).forM fun i => do
      let slot := Word.ofNat (start + i * layout.size)
      let _ ← execAll body (env.set addr (.word slot))
    MemoryM.free start (layout.size * length) layout.align
    return env
  | .callCore _ _ args results, env => do
    let answers ← host.core (← liftM (args.mapM env.word))
    liftM (env.setAll results (answers.map .word))
  | .callNative _ args results, env => do
    let answers ← host.native (← liftM (args.mapM env.native))
    liftM (env.setAll results (answers.map .native))
  -- The end of a plan is not inside of it.
  | .finish _, _ => throw stuck
termination_by structural i => i

/-- What a block does: one instruction after the other. -/
def execAll : List Instruction → Env → MemoryM Env
  | [], env => return env
  | i :: rest, env => do execAll rest (← exec i env)
termination_by structural code => code

/-- What the arm of a case does, and what it yields. There need not be an arm for the case. -/
def execArm : List (ArmOf Instruction) → Nat → Option Native → Env →
    MemoryM (Option (List Entry))
  | [], _, _, _ => return none
  | ⟨own, _, dst, body, yields⟩ :: rest, index, payload, env =>
    if own = index then do
      let env ← execAll body (← liftM (env.setPayload dst payload))
      return some (← liftM (yields.mapM env.get))
    else execArm rest index payload env
termination_by structural arms => arms

end

attribute [simp] exec execAll execArm

/-- What the body of a plan answers. Nothing is done after the end of the plan. -/
def run : List Instruction → Env → MemoryM (List Entry)
  | [], _ => return []
  | .finish values :: _, env => liftM (values.mapM env.get)
  | i :: rest, env => do run rest (← exec host args i env)

end Plan

namespace FunctionPlan

end FunctionPlan

/-- Runs the plan of what is left to do after a call, for its core arguments. It calls nothing. -/
def PostReturnPlan.run (p : PostReturnPlan) (words : List Word) : MemoryM Unit := do
  let nothing : Host := ⟨fun _ => throw Plan.stuck, fun _ => throw Plan.stuck⟩
  let _ ← Plan.run nothing words p.body .empty

end ComponentAbi
