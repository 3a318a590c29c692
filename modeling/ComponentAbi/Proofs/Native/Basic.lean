import ComponentAbi.Plan.Basic
import ComponentAbi.Proofs.Native.Flags
import ComponentAbi.Proofs.Shape.Unfold

/-!
# Native values

Values read positionally, as plans read them: a product is its parts in order, a case is its index,
and a set of flags is its bits. Which native value a value is depends on its type, and so does which
value a native value stands for.

This file has the values that are passed as one word. `Leaf.Holds` collects what their bits are good
for, and `Leaf.holds_atom` proves it of every value that has bits.
-/

namespace ComponentAbi

/-- A native value that is passed as one word. -/
inductive Atom where
  /-- A scalar value. -/
  | scalar (v : Value)
  /-- A case of an enumeration. -/
  | enum (index : Nat)
  /-- A set of flags. -/
  | flags (bits : Nat)
  /-- An owned handle. -/
  | own (handle : UInt32)
  /-- A borrowed handle. -/
  | borrow (handle : UInt32)
deriving Repr, Inhabited

/-- A value read positionally. -/
inductive Native where
  /-- A value that is passed as one word. -/
  | atom (a : Atom)
  /-- A text. -/
  | text (text : String)
  /-- The items of a list. -/
  | list (items : List Native)
  /-- The parts of a record or tuple. -/
  | product (parts : List Native)
  /-- A case of an option, result or variant. -/
  | sum (index : Nat) (payload : Option Native)
deriving Repr, Inhabited

namespace WordKind

/-- The bits of a native value of the kind. -/
def encode : WordKind → Atom → Except AbiError Nat
  | scalar s, .scalar v => s.encode v
  | enum, .enum index => .ok index
  | flags, .flags bits => .ok bits
  | own, .own handle => .ok handle.toNat
  | borrow, .borrow handle => .ok handle.toNat
  | kind, _ => .error (.typeMismatch kind.name "another native value")

/-- The native value of the kind that some bits stand for. -/
def decode : WordKind → Nat → Except AbiError Atom
  | scalar s, n => (s.decode n).map .scalar
  | enum, n => .ok (.enum n)
  | flags, n => .ok (.flags n)
  | own, n => .ok (.own (UInt32.ofNat n))
  | borrow, n => .ok (.borrow (UInt32.ofNat n))

end WordKind

namespace Scalar

variable {s : Scalar} {v : Value} {n : Nat}

/-- What is written of a scalar is read back. -/
theorem decode_encode (h : s.encode v = .ok n) :
    s.decode n = .ok v := by
  cases s <;> cases v <;>
    first
    | (simp only [encode, reduceCtorEq] at h; done)
    | (simp only [encode, Except.ok.injEq] at h; subst h)
  case bool.bool b => cases b <;> rfl
  case char.char c =>
    have : c.toNat.isValidChar := c.valid
    simp [decode, this]
  case s8.s8 n =>
    rw [decode, UInt8.toInt8_ofNat', ← Int32.toInt8_ofNat', ← UInt32.toInt32_ofNat',
      UInt32.ofNat_toNat, Int32.toInt32_toUInt32, Int8.toInt8_toInt32]
  case s16.s16 n =>
    rw [decode, UInt16.toInt16_ofNat', ← Int32.toInt16_ofNat', ← UInt32.toInt32_ofNat',
      UInt32.ofNat_toNat, Int32.toInt32_toUInt32, Int16.toInt16_toInt32]
  all_goals simp [decode]

theorem encode_lt (h : s.encode v = .ok n) :
    n < 256 ^ (Leaf.scalar s).core.size := by
  cases s <;> cases v <;>
    first
    | (simp only [encode, reduceCtorEq] at h; done)
    | (simp only [encode, Except.ok.injEq] at h; subst h)
  case bool.bool b => cases b <;> exact Nat.le_of_ble_eq_true rfl
  case char.char c => exact c.val.toNat_lt
  case u8.u8 n => exact Nat.lt_of_lt_of_le n.toNat_lt (by decide)
  case u16.u16 n => exact Nat.lt_of_lt_of_le n.toNat_lt (by decide)
  case u64.u64 | f64.f64 => exact UInt64.toNat_lt _
  case s64.s64 n => exact n.toUInt64.toNat_lt
  all_goals exact UInt32.toNat_lt _

/-- It is enough to keep as many bytes as the scalar has in memory. -/
theorem decode_mod (h : s.encode v = .ok n) :
    s.decode (n % 256 ^ s.width) = s.decode n := by
  have h₁ : UInt8.ofNat (n % 256 ^ 1) = UInt8.ofNat n := UInt8.ofNat_mod_size
  have h₂ : UInt16.ofNat (n % 256 ^ 2) = UInt16.ofNat n := UInt16.ofNat_mod_size
  have h₄ : UInt32.ofNat (n % 256 ^ 4) = UInt32.ofNat n := UInt32.ofNat_mod_size
  have h₈ : UInt64.ofNat (n % 256 ^ 8) = UInt64.ofNat n := UInt64.ofNat_mod_size
  cases s
  case bool =>
    cases v <;> simp only [encode, reduceCtorEq, Except.ok.injEq] at h
    subst h
    rename_i b
    cases b <;> rfl
  case char => rw [Nat.mod_eq_of_lt (show n < 256 ^ char.width from encode_lt h)]
  all_goals simp only [decode, width, h₁, h₂, h₄, h₈]

/-- What is decoded has bits. -/
theorem exists_encode_of_decode (h : s.decode n = .ok v) : ∃ bits, s.encode v = .ok bits := by
  cases s with
  | char =>
    rw [decode] at h
    split at h <;> cases h
    exact ⟨_, rfl⟩
  | _ =>
    cases h
    exact ⟨_, rfl⟩

end Scalar

namespace Leaf

/-- The native value of a value of the leaf type. -/
def atom : Leaf → Value → Except AbiError Atom
  | scalar s, v => (s.encode v).map fun _ => .scalar v
  | enum cases, .enum label =>
    match cases.idxOf? label with
    | some i => .ok (.enum i)
    | none => .error (unknownLabel label)
  | flags name labels, .flags set => do
    (flags name labels).check
    return .flags (← flagBits labels set)
  | own, .own handle => .ok (.own handle)
  | borrow, .borrow handle => .ok (.borrow handle)
  | l, v => .error (kindMismatch l.kind v)

/-- The value of the leaf type that a native value stands for. -/
def value : Leaf → Atom → Value
  | _, .scalar v => v
  | enum cases, .enum index => .enum (cases[index]?.getD "")
  | flags _ labels, .flags bits => .flags (setFlags labels bits)
  | _, .enum _ => .enum ""
  | _, .flags _ => .flags []
  | _, .own handle => .own handle
  | _, .borrow handle => .borrow handle

/-- The value with its flags in the order of their declaration, each of them once. -/
def normalize : Leaf → Value → Value
  | flags _ labels, .flags set => .flags (labels.eraseDups.filter (· ∈ set))
  | _, v => v

/-- The bits of a native value of the leaf type, and what they are good for. -/
structure Holds (l : Leaf) (a : Atom) (bits : Nat) : Prop where
  /-- They are what is written. -/
  encode : l.wordKind.encode a = .ok bits
  /-- They fit the word they are passed in. -/
  lt : bits < 256 ^ l.core.size
  /-- The value is read back from the word. -/
  decode : l.decode bits = .ok (l.value a)
  /-- The value is read back from memory. -/
  decode_mod : l.decode (bits % 256 ^ l.width) = .ok (l.value a)
  /-- So is the native value. -/
  lift : l.wordKind.decode bits = .ok a

variable {l : Leaf} {v : Value} {a : Atom}

theorem core_wordKind (l : Leaf) : l.wordKind.core = l.core := by
  cases l with
  | scalar s => cases s <;> rfl
  | enum | flags | own | borrow => rfl

theorem size_width (l : Leaf) : l.wordKind.width.size = l.width := by
  cases l with
  | scalar s => cases s <;> rfl
  | enum | flags | own | borrow => rfl

/-- The ways in which a leaf type has a native value for a value. -/
inductive ReadsAs : Leaf → Value → Atom → Prop where
  | scalar {s : Scalar} {v : Value} {n : Nat} (encoded : s.encode v = .ok n) :
    ReadsAs (.scalar s) v (.scalar v)
  | enum {cases : List String} {label : String} {i : Nat} (at_index : cases.idxOf? label = some i) :
    ReadsAs (.enum cases) (.enum label) (.enum i)
  | flags {name : String} {labels set : List String} {bits : Nat}
    (few : labels.length ≤ maxFlags) (encoded : flagBits labels set = .ok bits) :
    ReadsAs (.flags name labels) (.flags set) (.flags bits)
  | own (handle : UInt32) : ReadsAs .own (.own handle) (.own handle)
  | borrow (handle : UInt32) : ReadsAs .borrow (.borrow handle) (.borrow handle)

theorem check_flags {name : String} {labels : List String} :
    (flags name labels).check = .ok () ↔ labels.length ≤ maxFlags := by
  by_cases h : labels.length > maxFlags
  · simp [check, h, Nat.not_le.2 h]
  · simp [check, h, Nat.not_lt.1 h]

theorem readsAs_of_atom (h : l.atom v = .ok a) : l.ReadsAs v a := by
  cases l with
  | scalar s =>
    obtain ⟨n, hn, rfl⟩ := Except.map_eq_ok.1 h
    exact .scalar hn
  | enum cases =>
    cases v with
    | enum label =>
      cases hi : cases.idxOf? label with
      | none => rw [atom, hi] at h; cases h
      | some i =>
        rw [atom, hi] at h
        cases h
        exact .enum hi
    | _ => cases h
  | flags name labels =>
    cases v with
    | flags set =>
      obtain ⟨u, hc, h⟩ := Except.bind_eq_ok.1 h
      obtain ⟨bits, hb, h⟩ := Except.bind_eq_ok.1 h
      cases h
      exact .flags (check_flags.1 hc) hb
    | _ => cases h
  | own =>
    cases v with
    | own handle =>
      cases h
      exact .own handle
    | _ => cases h
  | borrow =>
    cases v with
    | borrow handle =>
      cases h
      exact .borrow handle
    | _ => cases h

theorem encode_of_atom (h : l.atom v = .ok a) : l.encode v = l.wordKind.encode a := by
  cases readsAs_of_atom h with
  | scalar encoded => rfl
  | enum at_index => simp only [encode, at_index, wordKind, WordKind.encode]
  | flags few encoded => rw [encode, check_flags.2 few]; exact encoded
  | own | borrow => rfl

theorem atom_of_encode {bits : Nat} (h : l.encode v = .ok bits) : ∃ a, l.atom v = .ok a := by
  cases l with
  | scalar s => exact ⟨.scalar v, by rw [atom, show s.encode v = .ok bits from h]; rfl⟩
  | enum cases =>
    cases v with
    | enum label =>
      cases hi : cases.idxOf? label with
      | none => rw [encode, hi] at h; cases h
      | some i => exact ⟨.enum i, by rw [atom, hi]⟩
    | _ => cases h
  | flags name labels =>
    cases v with
    | flags set =>
      obtain ⟨u, hc, hb⟩ := Except.bind_eq_ok.1 h
      exact ⟨.flags bits, by rw [atom, hc, hb]; rfl⟩
    | _ => cases h
  | own =>
    cases v with
    | own handle => exact ⟨_, rfl⟩
    | _ => cases h
  | borrow =>
    cases v with
    | borrow handle => exact ⟨_, rfl⟩
    | _ => cases h

/-- The native value of a value stands for its normal form. -/
theorem value_atom (h : l.atom v = .ok a) : l.value a = l.normalize v := by
  cases readsAs_of_atom h with
  | scalar encoded => rfl
  | enum at_index =>
    obtain ⟨hlt, hi, -⟩ := List.idxOf?_eq_some_iff.1 at_index
    rw [value, List.getElem?_eq_getElem hlt, hi]
    rfl
  | flags few encoded => rw [value, setFlags_flagBits encoded, normalize]
  | own | borrow => rfl

theorem index_lt_of_atom (hl : (Shape.leaf l).Indexable) (h : l.atom v = .ok a) {index : Nat}
    (ha : a = .enum index) : index < UInt32.size := by
  cases readsAs_of_atom h with
  | enum at_index =>
    cases ha
    obtain ⟨hlt, -⟩ := List.idxOf?_eq_some_iff.1 at_index
    exact Nat.lt_of_lt_of_le hlt hl
  | scalar | flags | own | borrow => cases ha

/-- Every value of a leaf type has bits, if case indices fit a word. -/
theorem holds_atom (hl : ∀ index, a = .enum index → index < UInt32.size) (h : l.atom v = .ok a) :
    ∃ bits, l.Holds a bits := by
  cases readsAs_of_atom h with
  | @scalar s v n encoded =>
    have hd := Scalar.decode_encode encoded
    refine ⟨n, encoded, Scalar.encode_lt encoded, hd, (Scalar.decode_mod encoded).trans hd, ?_⟩
    rw [wordKind, WordKind.decode, hd]
    rfl
  | @enum cases label i at_index =>
    obtain ⟨hlt, -⟩ := List.idxOf?_eq_some_iff.1 at_index
    have hsize : i < 256 ^ 4 := hl i rfl
    have hd : (enum cases).decode i = .ok ((enum cases).value (.enum i)) := by
      rw [decode, value, List.getElem?_eq_getElem hlt]
      rfl
    refine ⟨i, rfl, hsize, hd, ?_, rfl⟩
    rw [show (enum cases).width = 4 from rfl, Nat.mod_eq_of_lt hsize, hd]
  | @flags name labels set bits few encoded =>
    have hsize : bits < 256 ^ 4 := Nat.lt_of_lt_of_le (flagBits_lt encoded) <|
      Nat.pow_le_pow_right (Nat.le_succ 1) (show labels.length ≤ 32 from few)
    have hd : (flags name labels).decode bits = .ok ((flags name labels).value (.flags bits)) := by
      rw [decode, check_flags.2 few]
      rfl
    refine ⟨bits, rfl, hsize, hd, ?_, rfl⟩
    rw [show (flags name labels).width = 4 from rfl, Nat.mod_eq_of_lt hsize, hd]
  | own handle =>
    have hsize : handle.toNat < 256 ^ 4 := handle.toNat_lt
    have hd : own.decode handle.toNat = .ok (own.value (.own handle)) := by
      rw [decode, UInt32.ofNat_toNat, value]
    refine ⟨handle.toNat, rfl, hsize, hd, ?_, ?_⟩
    · rw [show own.width = 4 from rfl, Nat.mod_eq_of_lt hsize, hd]
    · rw [wordKind, WordKind.decode, UInt32.ofNat_toNat]
  | borrow handle =>
    have hsize : handle.toNat < 256 ^ 4 := handle.toNat_lt
    have hd : borrow.decode handle.toNat = .ok (borrow.value (.borrow handle)) := by
      rw [decode, UInt32.ofNat_toNat, value]
    refine ⟨handle.toNat, rfl, hsize, hd, ?_, ?_⟩
    · rw [show borrow.width = 4 from rfl, Nat.mod_eq_of_lt hsize, hd]
    · rw [wordKind, WordKind.decode, UInt32.ofNat_toNat]

end Leaf

end ComponentAbi
