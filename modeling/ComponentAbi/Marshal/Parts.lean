import ComponentAbi.Marshal.Leaf

/-!
# Parts of compound values

Taking a record or tuple apart into the values of its fields, and an option, result or variant into
its case and payload; and putting them together again.
-/

namespace ComponentAbi

/-- The value of a record field: the first one supplied under its label. -/
def recordField (given : List (String × Value)) (label : String) : Except AbiError Value :=
  match given.lookup label with
  | some v => .ok v
  | none =>
    .error (.typeMismatch ("record with field '" ++ label ++ "'") "record without it")

namespace ProductKind

/-- The values of the fields with the given labels. A missing record field is an error of that field
alone, so the fields before it are still passed. -/
def parts (kind : ProductKind) (labels : List String) (v : Value) :
    Except AbiError (List (Except AbiError Value)) :=
  match kind, v with
  | record _, .record given => .ok (labels.map (recordField given))
  | tuple, .tuple items =>
    if labels.length = items.length then .ok (items.map .ok)
    else .error (.typeMismatch ("tuple of " ++ toString labels.length)
      ("tuple of " ++ toString items.length))
  | kind, v => .error (kindMismatch kind.name v)

/-- The value made of the given field values. -/
def build (kind : ProductKind) (labels : List String) (values : List Value) : Value :=
  match kind with
  | record _ => .record (labels.zip values)
  | tuple => .tuple values

end ProductKind

/-- Pairs the payload type of a case with a payload value: both must be there, or neither. -/
def pairPayload : Option Shape → Option Value → Except AbiError (Option (Shape × Value))
  | some s, some v => .ok (some (s, v))
  | none, none => .ok none
  | some _, none => .error (.typeMismatch "case payload" "no payload")
  | none, some v => .error (.typeMismatch "no payload" v.kind)

namespace SumKind

/-- The index of the case that a value is in, and its payload. -/
def caseOf (kind : SumKind) (labels : List String) (v : Value) :
    Except AbiError (Nat × Option Value) :=
  match kind, v with
  | option, .option none => .ok (0, none)
  | option, .option (some payload) => .ok (1, some payload)
  | result, .ok payload => .ok (0, payload)
  | result, .err payload => .ok (1, payload)
  | variant _, .variant label payload =>
    match labels.idxOf? label with
    | some i => .ok (i, payload)
    | none => .error (unknownLabel label)
  | kind, v => .error (kindMismatch kind.name v)

/-- The case of a value, with the payload paired to its type. -/
def select (kind : SumKind) (cases : List (String × Option Shape)) (v : Value) :
    Except AbiError (Nat × Option (Shape × Value)) := do
  let (index, payload) ← kind.caseOf (cases.map (·.1)) v
  let paired ← pairPayload ((cases[index]?).bind (·.2)) payload
  return (index, paired)

/-- The value in the case of the given index and label. -/
def build (kind : SumKind) (index : Nat) (label : String) (payload : Option Value) : Value :=
  match kind with
  | option => .option (if index = 0 then none else payload)
  | result => if index = 0 then .ok payload else .err payload
  | variant _ => .variant label payload

end SumKind

end ComponentAbi
