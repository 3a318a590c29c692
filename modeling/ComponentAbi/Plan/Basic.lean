import ComponentAbi.Direction
import ComponentAbi.Signature

/-!
# Marshaling plans

A plan is the sequence of instructions that carries one call across the boundary, over named
temporaries (`Local`). Instructions on lists and on sums have instruction blocks of their own.

Native values in a plan are positional: a record is its fields in order, and a case is its index.
-/

namespace ComponentAbi

/-- A named temporary. -/
structure Local where
  /-- Its place in the sequence of all temporaries that are handed out. -/
  index : Nat
deriving DecidableEq, Repr, Inhabited

namespace Local

/-- The number that it is named by, which has 32 bits. After `2 ^ 32` temporaries the numbers start
again from zero. -/
def number (l : Local) : UInt32 :=
  UInt32.ofNat l.index

/-- The written name. -/
def toText (l : Local) : String :=
  "t" ++ toString l.number

end Local

/-- The kinds of native values that are passed as one word. -/
inductive WordKind where
  | scalar (s : Scalar)
  | enum
  | flags
  | own
  | borrow
deriving DecidableEq, Repr

namespace WordKind

/-- The written name. -/
def name : WordKind → String
  | scalar s => s.keyword
  | enum => "enum"
  | flags => "flags"
  | own => "own"
  | borrow => "borrow"

/-- The kind of word. -/
def core : WordKind → CoreType
  | scalar .u64 | scalar .s64 => .i64
  | scalar .f32 => .f32
  | scalar .f64 => .f64
  | _ => .i32

end WordKind

namespace Leaf

/-- The kind of native values of a leaf type. -/
def wordKind : Leaf → WordKind
  | scalar s => .scalar s
  | enum _ => .enum
  | flags .. => .flags
  | own => .own
  | borrow => .borrow

end Leaf

/-- The width of a memory access, and for narrow ones how they extend to a word. -/
inductive MemoryWidth where
  | u8
  | s8
  | u16
  | s16
  | i32
  | i64
  | f32
  | f64
deriving DecidableEq, Repr

namespace MemoryWidth

/-- The written name. -/
def name : MemoryWidth → String
  | u8 => "u8"
  | s8 => "s8"
  | u16 => "u16"
  | s16 => "s16"
  | i32 => "i32"
  | i64 => "i64"
  | f32 => "f32"
  | f64 => "f64"

/-- Number of bytes. -/
def size : MemoryWidth → Nat
  | u8 | s8 => 1
  | u16 | s16 => 2
  | i32 | f32 => 4
  | i64 | f64 => 8

/-- The kind of word that is loaded or stored. -/
def core : MemoryWidth → CoreType
  | i64 => .i64
  | f32 => .f32
  | f64 => .f64
  | _ => .i32

end MemoryWidth

namespace WordKind

/-- The memory access of a kind. -/
def width : WordKind → MemoryWidth
  | scalar .bool | scalar .u8 => .u8
  | scalar .s8 => .s8
  | scalar .u16 => .u16
  | scalar .s16 => .s16
  | scalar .u64 | scalar .s64 => .i64
  | scalar .f32 => .f32
  | scalar .f64 => .f64
  | _ => .i32

end WordKind

/-- What is done in one case, with instructions of type `ι`. -/
structure ArmOf (ι : Type) where
  /-- The case index. -/
  index : Nat
  /-- The case label. -/
  label : String
  /-- The temporary that the payload is bound to when a value is matched. -/
  payload : Option Local := none
  /-- The instructions. -/
  body : List ι
  /-- What they yield. -/
  yields : List Local := []
deriving Repr

/-- An instruction of a plan. -/
inductive Instruction where
  /-- Names a parameter of the core function. -/
  | arg (index : Nat) (dst : Local)
  /-- A constant word. -/
  | const (type : CoreType) (value : Nat) (dst : Local)
  /-- A native value as a word. -/
  | lower (kind : WordKind) (src dst : Local)
  /-- A word as a native value. -/
  | lift (kind : WordKind) (src dst : Local)
  /-- A word as a word of another kind. -/
  | bitcast (cast : Bitcast) (src dst : Local)
  /-- Takes a record or tuple apart. -/
  | destructure (type : String) (src : Local) (fields : List Local)
  /-- Puts a record or tuple together. -/
  | construct (type : String) (fields : List Local) (dst : Local)
  /-- Copies a text into a new block. -/
  | stringLower (src ptr len : Local)
  /-- Reads a text. -/
  | stringLift (ptr len dst : Local)
  /-- Hands out a block for the items of a list, and runs the body for every item with its slot. -/
  | listLower (element : String) (layout : Layout) (src ptr len item addr : Local)
      (body : List Instruction)
  /-- Runs the body for every slot of a list; `item` is what the body makes of it. -/
  | listLift (element : String) (layout : Layout) (ptr len addr : Local)
      (body : List Instruction) (item dst : Local)
  /-- Runs the arm of the case that a value is in; its yields become the results. -/
  | variantLower (type : String) (src : Local) (results : List Local)
      (arms : List (ArmOf Instruction))
  /-- Runs the arm of a case index; its yield, if there is one, is the payload. -/
  | variantLift (type : String) (discriminant : Local) (arms : List (ArmOf Instruction))
      (dst : Local)
  /-- Runs the arm of the case that a value is in, for what it does. -/
  | matchCase (type : String) (src : Local) (arms : List (ArmOf Instruction))
  /-- Runs the arm of a case index, if it has one, for what it does. -/
  | switch (discriminant : Local) (arms : List (ArmOf Instruction))
  /-- Reads a word from memory. -/
  | load (width : MemoryWidth) (base : Local) (offset : Nat) (dst : Local)
  /-- Writes a word to memory. -/
  | store (width : MemoryWidth) (src base : Local) (offset : Nat)
  /-- Hands out a block. -/
  | alloc (size align : Nat) (dst : Local)
  /-- Frees a block. -/
  | free (ptr : Local) (size align : Nat)
  /-- Frees the block of a text. -/
  | freeString (ptr len : Local)
  /-- Runs the body for every slot of a list, and frees the block. -/
  | freeList (element : String) (layout : Layout) (ptr len addr : Local) (body : List Instruction)
  /-- Calls the core function. -/
  | callCore (module : Option String) (name : String) (args results : List Local)
  /-- Calls the implementation. -/
  | callNative (name : String) (args results : List Local)
  /-- Ends the plan. -/
  | finish (values : List Local)
deriving Repr

/-- What is done in one case. -/
abbrev Arm := ArmOf Instruction

/-- What an export does after the caller has read its results. -/
structure PostReturnPlan where
  /-- The name of the core function. -/
  name : String
  /-- Its parameters. -/
  params : List Local
  /-- Its instructions. -/
  body : List Instruction
deriving Repr

/-- The plan of a function in one direction. -/
structure FunctionPlan where
  /-- The name of the function. -/
  name : String
  /-- The module it is imported from or exported in. -/
  module : Option String
  /-- The side of the boundary. -/
  direction : Direction
  /-- The signature. -/
  signature : Signature
  /-- Native arguments of an import, core parameters of an export. -/
  params : List Local
  /-- The instructions. -/
  body : List Instruction
  /-- What is left to do later, if anything. -/
  postReturn : Option PostReturnPlan
deriving Repr

namespace Instruction

mutual

/-- An instruction and all instructions in its blocks, each before those in its own blocks. -/
def withNested : Instruction → List Instruction
  | i@(listLower _ _ _ _ _ _ _ body) | i@(listLift _ _ _ _ _ body _ _)
  | i@(freeList _ _ _ _ _ body) => i :: allNested body
  | i@(variantLower _ _ _ arms) | i@(variantLift _ _ arms _) | i@(matchCase _ _ arms)
  | i@(switch _ arms) => i :: armsNested arms
  | i => [i]
termination_by structural i => i

/-- The instructions of a block and of the blocks in it. -/
def allNested : List Instruction → List Instruction
  | [] => []
  | i :: rest => i.withNested ++ allNested rest
termination_by structural body => body

/-- The instructions of some arms and of the blocks in them. -/
def armsNested : List (ArmOf Instruction) → List Instruction
  | [] => []
  | ⟨_, _, _, body, _⟩ :: rest => allNested body ++ armsNested rest
termination_by structural arms => arms

end

end Instruction

namespace FunctionPlan

/-- Every instruction of a plan, those of the later cleanup last. -/
def instructions (p : FunctionPlan) : List Instruction :=
  Instruction.allNested p.body
    ++ p.postReturn.elim [] fun post => Instruction.allNested post.body

end FunctionPlan

end ComponentAbi
