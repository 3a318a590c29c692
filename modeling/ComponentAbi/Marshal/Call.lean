import ComponentAbi.Marshal.Free
import ComponentAbi.Marshal.Lower
import ComponentAbi.Marshal.OwnedHandles
import ComponentAbi.Signature

/-!
# Calls across the boundary

Both sides of a call over one memory, following the ownership protocol:

1. the caller lowers the arguments, into a parameter area if they are passed in memory, and reserves
   a return area if there is one (`Abi.lowerParams`);
2. the callee lifts the arguments and frees what they owned (`Abi.liftParams`);
3. the callee lowers its results (`Abi.lowerResults`);
4. the caller lifts the results (`Abi.liftResults`);
5. the caller frees what the results owned, and its return area (`Abi.postReturn`).

The first two steps are `Abi.passParams` and the others `Abi.passResults`. A whole call (`Abi.call`)
that fails anywhere frees every block that was handed out during the call.
-/

namespace ComponentAbi

/-- What the core function is called with. -/
structure LoweredCall where
  /-- The words of the core parameters. -/
  coreArgs : List Word := []
  /-- The return area that the caller reserved, if there is one. -/
  returnArea : Option Nat := none
deriving DecidableEq, Repr

/-- What a whole call did. -/
structure CallOutcome where
  /-- The results as the caller lifted them. -/
  results : List Value
  /-- Owned handles that the caller gave away. -/
  movedToCallee : List UInt32
  /-- Owned handles that the caller received. -/
  movedToCaller : List UInt32
deriving Repr

/-- There must be as many values or words as the signature says. -/
def checkCount (what : String) (expected got : Nat) : Except AbiError Unit :=
  if expected = got then .ok ()
  else .error (.typeMismatch (toString expected ++ " " ++ what) (toString got ++ " " ++ what))

namespace Abi

/-- Caller: lowers the arguments. -/
def lowerParams (abi : Abi) (sig : Signature) (args : List Value) : MemoryM LoweredCall := do
  liftM (checkCount "arguments" sig.paramTypes.length args.length)
  MemoryM.guarded do
    let words ← match sig.paramArea with
      | some area => do
        let start ← MemoryM.alloc area.size area.align
        abi.storeFields sig.paramTypes args start
        pure [Word.ofNat start]
      | none => abi.lowerAll sig.paramTypes args
    match sig.returnArea with
    | some area => do
      let start ← MemoryM.alloc area.size area.align
      return { coreArgs := words ++ [Word.ofNat start], returnArea := some start }
    | none => return { coreArgs := words }

/-- Lifts parameters from words, and frees what each of them owned before the next is lifted. -/
def liftParamWords (abi : Abi) (words : List Word) :
    (position : Nat) → List TypeId → MemoryM (List Value)
  | _, [] => return []
  | position, id :: rest => do
    let count := (← liftM (abi.flatten id)).length
    if position + count > words.length then
      throw (.flatArityMismatch (position + count) words.length)
    let own := (words.drop position).take count
    let v ← MemoryM.reading (abi.liftFlat · id own)
    abi.freeFlat id own
    let more ← liftParamWords abi words (position + count) rest
    return v :: more

/-- Callee: lifts the arguments and frees what they owned, the parameter area included. -/
def liftParams (abi : Abi) (sig : Signature) (coreArgs : List Word) : MemoryM (List Value) := do
  liftM (checkCount "core arguments" sig.coreParams.length coreArgs.length)
  match sig.paramArea with
  | some area => do
    let (start, _) ← liftM ((WordReader.ofList coreArgs).next .i32)
    let params ← MemoryM.reading (abi.loadFields · sig.paramTypes start)
    abi.freeFields sig.paramTypes start
    MemoryM.free start area.size area.align
    return params
  | none => abi.liftParamWords coreArgs 0 sig.paramTypes

/-- Callee: lowers the results, into the return area if there is one. -/
def lowerResults (abi : Abi) (sig : Signature) (call : LoweredCall) (results : List Value) :
    MemoryM (List Word) := do
  liftM (checkCount "results" sig.resultTypes.length results.length)
  MemoryM.guarded do
    match call.returnArea with
    | some start => do
      abi.storeFields sig.resultTypes results start
      return []
    | none => abi.lowerAll sig.resultTypes results

/-- Caller: lifts the results. What they own stays live. -/
def liftResults (abi : Abi) (sig : Signature) (call : LoweredCall) (coreResults : List Word) :
    MemoryM (List Value) := do
  match call.returnArea with
  | some start => MemoryM.reading (abi.loadFields · sig.resultTypes start)
  | none =>
    match sig.resultTypes with
    | [] => return []
    | [id] => return [← MemoryM.reading (abi.liftFlat · id coreResults)]
    | _ => throw (.flatArityMismatch sig.coreResults.length coreResults.length)

/-- Caller: frees what the results owned, and then the return area. -/
def postReturn (abi : Abi) (sig : Signature) (call : LoweredCall) (coreResults : List Word) :
    MemoryM Unit := do
  match call.returnArea, sig.returnArea with
  | some start, some area => do
    abi.freeFields sig.resultTypes start
    MemoryM.free start area.size area.align
  | _, _ =>
    match sig.resultTypes with
    | [id] => abi.freeFlat id coreResults
    | _ => return

/-- Takes the arguments across: what the core function is called with, and the parameters as the
callee receives them. -/
def passParams (abi : Abi) (sig : Signature) (args : List Value) :
    MemoryM (LoweredCall × List Value) := do
  let lowered ← abi.lowerParams sig args
  let params ← abi.liftParams sig lowered.coreArgs
  return (lowered, params)

/-- Takes the results back: what the caller receives, with everything freed. -/
def passResults (abi : Abi) (sig : Signature) (lowered : LoweredCall) (results : List Value) :
    MemoryM (List Value) := do
  let coreResults ← abi.lowerResults sig lowered results
  let lifted ← abi.liftResults sig lowered coreResults
  abi.postReturn sig lowered coreResults
  return lifted

/-- A whole call, with `callee` in place of the implementation. If it fails, every block that was
handed out during the call is freed. -/
def call (abi : Abi) (sig : Signature) (args : List Value)
    (callee : List Value → Except AbiError (List Value)) : MemoryM CallOutcome :=
  MemoryM.guarded do
    let movedToCallee ← liftM (abi.ownedHandlesOfAll sig.paramTypes args)
    let (lowered, params) ← abi.passParams sig args
    let returned ← liftM (callee params)
    let results ← abi.passResults sig lowered returned
    let movedToCaller ← liftM (abi.ownedHandlesOfAll sig.resultTypes results)
    return { results, movedToCallee, movedToCaller }

end Abi

end ComponentAbi
