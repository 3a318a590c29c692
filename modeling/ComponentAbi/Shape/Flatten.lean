import ComponentAbi.CoreType
import ComponentAbi.Shape.Basic

/-!
# Flattening

The core words a value of a type is passed as. A sum is passed as its case index followed by slots
that all its payloads share: position by position, the slot holds the join of the words that the
payloads have there.

* `joinWords_comm`, `joinWords_assoc`, `joinWords_self`: sharing slots does not depend on order or
  repetition.
-/

namespace ComponentAbi

/-- Slots shared by two sequences of words. Where one sequence is longer, its words stay as they
are. -/
def joinWords : List CoreType → List CoreType → List CoreType
  | [], bs => bs
  | as, [] => as
  | a :: as, b :: bs => a.join b :: joinWords as bs

@[simp] theorem joinWords_nil (as : List CoreType) : joinWords as [] = as := by
  cases as <;> rfl

theorem joinWords_self (as : List CoreType) : joinWords as as = as := by
  induction as with
  | nil => rfl
  | cons a as ih => simp [joinWords, CoreType.join_self, ih]

theorem joinWords_comm (as bs : List CoreType) : joinWords as bs = joinWords bs as := by
  induction as generalizing bs with
  | nil => simp [joinWords]
  | cons a as ih => cases bs <;> simp [joinWords, CoreType.join_comm a, ih]

theorem joinWords_assoc (as bs cs : List CoreType) :
    joinWords (joinWords as bs) cs = joinWords as (joinWords bs cs) := by
  induction as generalizing bs cs with
  | nil => simp [joinWords]
  | cons a as ih => cases bs <;> cases cs <;> simp [joinWords, CoreType.join_assoc, ih]

/-- The number of labels that fit the word of a flags type. -/
def maxFlags : Nat := 32

namespace Leaf

/-- The kind of word a leaf type is passed as. -/
def core : Leaf → CoreType
  | scalar .u64 | scalar .s64 => .i64
  | scalar .f32 => .f32
  | scalar .f64 => .f64
  | _ => .i32

/-- A flags type must not have too many labels. -/
def check : Leaf → Except AbiError Unit
  | flags name labels =>
    if labels.length > maxFlags then .error (.tooManyFlags name labels.length maxFlags) else .ok ()
  | _ => .ok ()

end Leaf

namespace Shape

mutual

/-- The core words of a shape. -/
def flatten : Shape → Except AbiError (List CoreType)
  | leaf l => l.check.map fun _ => [l.core]
  | string | list _ => .ok [.i32, .i32]
  | product _ fields => flattenFields fields
  | sum _ cases => (flattenCases cases).map (.i32 :: ·)
  | unsupported _ title => .error (unsupportedError title)
  | unresolved cause => .error cause
termination_by structural s => s

/-- The core words of fields in a row. -/
def flattenFields : List (String × Shape) → Except AbiError (List CoreType)
  | [] => .ok []
  | (_, field) :: rest => do
    let words ← field.flatten
    let more ← flattenFields rest
    return words ++ more
termination_by structural fields => fields

/-- The slots shared by the payloads of some cases. -/
def flattenCases : List (String × Option Shape) → Except AbiError (List CoreType)
  | [] => .ok []
  | (_, none) :: rest => flattenCases rest
  | (_, some payload) :: rest => do
    let words ← payload.flatten
    let more ← flattenCases rest
    return joinWords words more
termination_by structural cases => cases

end

end Shape

namespace Abi

/-- The core words of a type. -/
def flatten (abi : Abi) (id : TypeId) : Except AbiError (List CoreType) :=
  (abi.shape id).flatten

/-- The core words of several types in a row. -/
def flattenAll (abi : Abi) (ids : List TypeId) : Except AbiError (List CoreType) :=
  Shape.flattenFields (ids.map fun id => ("", abi.shape id))

/-- The slots shared by several payload types. -/
def flattenCases (abi : Abi) (cases : List (Option TypeId)) : Except AbiError (List CoreType) :=
  Shape.flattenCases (cases.map fun payload => ("", payload.map abi.shape))

end Abi

end ComponentAbi
