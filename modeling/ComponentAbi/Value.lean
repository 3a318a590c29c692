/-!
# Values

Values of interface types. Record fields and variant cases are known by name, so a value can be
written before its type is looked at.
-/

namespace ComponentAbi

/-- A value. Floating-point values are bit patterns, and handles are numbers. -/
inductive Value where
  | bool (b : Bool)
  | u8 (n : UInt8)
  | u16 (n : UInt16)
  | u32 (n : UInt32)
  | u64 (n : UInt64)
  | s8 (n : Int8)
  | s16 (n : Int16)
  | s32 (n : Int32)
  | s64 (n : Int64)
  | f32 (bits : UInt32)
  | f64 (bits : UInt64)
  | char (c : Char)
  | string (text : String)
  | list (items : List Value)
  | record (fields : List (String × Value))
  | tuple (items : List Value)
  | variant (label : String) (payload : Option Value)
  | enum (label : String)
  | option (payload : Option Value)
  | ok (payload : Option Value)
  | err (payload : Option Value)
  | flags (labels : List String)
  | own (handle : UInt32)
  | borrow (handle : UInt32)
deriving Repr, Inhabited

namespace Value

/-- The kind name of a value. -/
def kind : Value → String
  | bool _ => "bool"
  | u8 _ => "u8"
  | u16 _ => "u16"
  | u32 _ => "u32"
  | u64 _ => "u64"
  | s8 _ => "s8"
  | s16 _ => "s16"
  | s32 _ => "s32"
  | s64 _ => "s64"
  | f32 _ => "f32"
  | f64 _ => "f64"
  | char _ => "char"
  | string _ => "string"
  | list _ => "list"
  | record _ => "record"
  | tuple _ => "tuple"
  | variant .. => "variant"
  | enum _ => "enum"
  | option _ => "option"
  | ok _ | err _ => "result"
  | flags _ => "flags"
  | own _ => "own"
  | borrow _ => "borrow"

mutual

/-- How deeply values are nested in a value. -/
def depth : Value → Nat
  | list items | tuple items => depths items + 1
  | record fields => fieldDepths fields + 1
  | variant _ payload | option payload | ok payload | err payload => payloadDepth payload + 1
  | bool _ | u8 _ | u16 _ | u32 _ | u64 _ | s8 _ | s16 _ | s32 _ | s64 _ | f32 _ | f64 _ | char _
  | string _ | enum _ | flags _ | own _ | borrow _ => 0
termination_by structural v => v

/-- The greatest depth of some values. -/
def depths : List Value → Nat
  | [] => 0
  | v :: rest => max v.depth (depths rest)
termination_by structural items => items

/-- The greatest depth of some field values. -/
def fieldDepths : List (String × Value) → Nat
  | [] => 0
  | (_, v) :: rest => max v.depth (fieldDepths rest)
termination_by structural fields => fields

/-- The depth of a payload. -/
def payloadDepth : Option Value → Nat
  | none => 0
  | some v => v.depth
termination_by structural payload => payload

end

end Value

end ComponentAbi
