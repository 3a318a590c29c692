import ComponentAbi.Proofs.Names.Distinct
import ComponentAbi.Proofs.Names.Order

/-!
# Precedence by its rules

The rules of semantic versioning say which of two versions comes first (`Version.Precedes`): the
numbers decide, then a pre-release comes before its release, and between pre-releases the first
identifiers that differ. Identifiers are numbers of any size or other texts.

`Version.compare` follows these rules as long as the numbers in pre-releases fit 64 bits
(`Version.compare_eq_precedence`). A longer number is compared as a text, so it may come after a
greater one and after other texts (`Version.long_numbers_misplaced`).
-/

namespace ComponentAbi

/-! ### Identifiers -/

namespace Identifier

variable {x y : String} {xs ys : List String}

/-- The identifier is a number: there is nothing but digits in it. -/
def IsNumber (x : String) : Prop :=
  x ≠ "" ∧ ∀ c ∈ x.toList, c.isDigit

/-- The number that the digits stand for. -/
def value (x : String) : Nat :=
  Nat.ofDigitChars 10 x.toList 0

/-- The bytes of an identifier. -/
def bytes (x : String) : List UInt8 :=
  x.toList.flatMap String.utf8EncodeChar

/-- The identifier is made of letters, digits and hyphens. -/
def Plain (x : String) : Prop :=
  ∀ c ∈ x.toList, c.isAlphanum ∨ c = '-'

/-- A number has at most 64 bits. -/
def Fits (x : String) : Prop :=
  IsNumber x → value x < UInt64.size

-- Characters can be enumerated, so the instances name the list that is to be gone through.
instance : DecidablePred IsNumber := fun x =>
  decidable_of_iff (x ≠ "" ∧ x.toList.all Char.isDigit) (and_congr_right fun _ => List.all_eq_true)

instance : DecidablePred Plain := fun x =>
  List.decidableBAll (fun c : Char => c.isAlphanum ∨ c = '-') x.toList

instance : DecidablePred Fits := fun x =>
  inferInstanceAs (Decidable (IsNumber x → value x < UInt64.size))

/-- The identifiers do not decide which version comes first. -/
inductive Level : String → String → Prop where
  | number {x y : String} : IsNumber x → IsNumber y → value x = value y → Level x y
  | text (x : String) : Level x x

/-- The first identifier comes before the second. -/
inductive Before : String → String → Prop where
  /-- Numbers are compared by value. -/
  | number {x y : String} : IsNumber x → IsNumber y → value x < value y → Before x y
  /-- Numbers come before other texts. -/
  | mixed {x y : String} : IsNumber x → ¬IsNumber y → Before x y
  /-- Other texts are compared byte by byte. -/
  | text {x y : String} : ¬IsNumber x → ¬IsNumber y → bytes x < bytes y → Before x y

/-- The first list of identifiers comes before the second. -/
inductive ListBefore : List String → List String → Prop where
  /-- A list comes before all that go on where it ends. -/
  | shorter (y : String) (ys : List String) : ListBefore [] (y :: ys)
  /-- The first identifiers decide. -/
  | here {x y : String} {xs ys : List String} : Before x y → ListBefore (x :: xs) (y :: ys)
  /-- The first identifiers do not decide. -/
  | later {x y : String} {xs ys : List String} :
      Level x y → ListBefore xs ys → ListBefore (x :: xs) (y :: ys)

end Identifier

namespace Decimal

variable {cs : List Char} {n : Nat}

theorem isDigit_of_digit? {c : Char} (h : digit? c = some n) : c.isDigit := by
  rw [digit?] at h
  split at h
  · rename_i hc
    simpa [Char.isDigit, Char.le_def] using hc
  · cases h

theorem isDigit_of_foldlM {start : Nat}
    (h : cs.foldlM (fun n c => (digit? c).map (10 * n + ·)) start = some n) :
    ∀ c ∈ cs, c.isDigit := by
  induction cs generalizing start with
  | nil => nofun
  | cons c rest ih =>
    obtain ⟨next, hnext, h⟩ := Option.bind_eq_some_iff.1 h
    obtain ⟨digit, hdigit, -⟩ := Option.map_eq_some_iff.1 hnext
    exact List.forall_mem_cons.2 ⟨isDigit_of_digit? hdigit, ih h⟩

/-- Exactly the non-empty sequences of digits are read, as the numbers they stand for. -/
theorem read?_eq_some_iff : read? cs = some n ↔
    cs ≠ [] ∧ (∀ c ∈ cs, c.isDigit) ∧ Nat.ofDigitChars 10 cs 0 = n := by
  by_cases hne : cs = []
  · subst hne
    exact ⟨nofun, fun h => absurd rfl h.1⟩
  · rw [read?.eq_2 _ hne]
    constructor
    · intro h
      have hdigits := isDigit_of_foldlM h
      rw [foldlM_digits hdigits] at h
      exact ⟨hne, hdigits, Option.some.inj h⟩
    · rintro ⟨-, hdigits, rfl⟩
      exact foldlM_digits hdigits 0

/-- Without a sign, exactly the numbers of at most 64 bits are read. -/
theorem readWord?_eq_some_iff {x : String} {n : UInt64} (hplus : '+' ∉ x.toList) :
    readWord? x = some n ↔ Identifier.IsNumber x ∧ Identifier.value x = n.toNat := by
  have hdigits : readWord? x = (read? x.toList).bind fun n =>
      if n < UInt64.size then some (UInt64.ofNat n) else none := by
    rw [readWord?]
    split
    · rename_i rest hrest
      exact absurd (hrest ▸ List.mem_cons_self) hplus
    · rfl
  have hword {m : Nat} : (if m < UInt64.size then some (UInt64.ofNat m) else none) = some n ↔
      m = n.toNat := by
    constructor
    · intro h
      split at h
      · rename_i hm
        cases h
        exact (UInt64.toNat_ofNat_of_lt hm).symm
      · cases h
    · rintro rfl
      rw [if_pos n.toNat_lt_size, UInt64.ofNat_toNat]
  rw [hdigits, Option.bind_eq_some_iff, Identifier.IsNumber, Identifier.value]
  simp only [read?_eq_some_iff, hword, ne_eq, String.toList_eq_nil_iff]
  constructor
  · rintro ⟨_, ⟨hne, hall, rfl⟩, hn⟩
    exact ⟨⟨hne, hall⟩, hn⟩
  · rintro ⟨⟨hne, hall⟩, hn⟩
    exact ⟨_, ⟨hne, hall, rfl⟩, hn⟩

end Decimal

namespace Identifier

variable {x y : String} {xs ys : List String}

theorem Plain.plus_notMem (h : Plain x) : '+' ∉ x.toList := fun hmem => by
  rcases h '+' hmem with h | h
  · exact absurd h (by decide)
  · exact absurd h (by decide)

theorem Plain.toNat_lt (h : Plain x) : ∀ c ∈ x.toList, c.toNat < 128 := by
  intro c hc
  rcases h c hc with h | rfl
  · have hc : c.toNat ≤ 122 := by
      delta Char.isAlphanum Char.isAlpha Char.isUpper Char.isLower Char.isDigit at h
      simp only [Bool.or_eq_true, Bool.and_eq_true, decide_eq_true_eq,
        UInt32.le_iff_toNat_le] at h
      rcases h with (⟨-, h⟩ | ⟨-, h⟩) | ⟨-, h⟩
      · exact Nat.le_trans h (by decide)
      · exact Nat.le_trans h (by decide)
      · exact Nat.le_trans h (by decide)
    omega
  · decide

/-- Characters below 128 are one byte each. -/
theorem bytes_lt_iff {cs ds : List Char} (hcs : ∀ c ∈ cs, c.toNat < 128)
    (hds : ∀ d ∈ ds, d.toNat < 128) :
    cs.flatMap String.utf8EncodeChar < ds.flatMap String.utf8EncodeChar ↔ cs < ds := by
  have hbyte {c : Char} (hc : c.toNat < 128) : String.utf8EncodeChar c = [UInt8.ofNat c.toNat] := by
    rw [String.utf8EncodeChar.eq_1]
    exact if_pos (Nat.le_of_lt_succ hc)
  have hnat {c : Char} (hc : c.toNat < 128) : (UInt8.ofNat c.toNat).toNat = c.toNat :=
    UInt8.toNat_ofNat_of_lt' (Nat.lt_trans hc (by decide))
  have hlt {c d : Char} (hc : c.toNat < 128) (hd : d.toNat < 128) :
      UInt8.ofNat c.toNat < UInt8.ofNat d.toNat ↔ c < d := by
    rw [UInt8.lt_iff_toNat_lt, hnat hc, hnat hd]
    rfl
  have heq {c d : Char} (hc : c.toNat < 128) (hd : d.toNat < 128) :
      UInt8.ofNat c.toNat = UInt8.ofNat d.toNat ↔ c = d := by
    rw [← UInt8.toNat_inj, hnat hc, hnat hd, Char.toNat_inj]
  induction cs generalizing ds with
  | nil =>
    cases ds with
    | nil => exact ⟨fun h => absurd h (List.not_lt_nil _), fun h => absurd h (List.not_lt_nil _)⟩
    | cons d ds =>
      rw [List.flatMap_cons, hbyte (hds d List.mem_cons_self)]
      exact ⟨fun _ => List.nil_lt_cons d ds, fun _ => List.nil_lt_cons _ _⟩
  | cons c cs ih =>
    obtain ⟨hc, hcs⟩ := List.forall_mem_cons.1 hcs
    cases ds with
    | nil => exact ⟨fun h => absurd h (List.not_lt_nil _), fun h => absurd h (List.not_lt_nil _)⟩
    | cons d ds =>
      obtain ⟨hd, hds⟩ := List.forall_mem_cons.1 hds
      rw [List.flatMap_cons, List.flatMap_cons, hbyte hc, hbyte hd, List.singleton_append,
        List.singleton_append, List.cons_lt_cons_iff, List.cons_lt_cons_iff, hlt hc hd, heq hc hd]
      exact or_congr_right (and_congr_right fun _ => ih hcs hds)

theorem compare_eq_lt_iff (hx : Plain x) (hy : Plain y) :
    Ord.compare x y = .lt ↔ bytes x < bytes y := by
  rw [bytes, bytes, bytes_lt_iff hx.toNat_lt hy.toNat_lt]
  exact compareOfLessAndEq_eq_lt

/-- How a plain identifier is read. -/
theorem Plain.readWord? (h : Plain x) (hfits : Fits x) :
    (∃ n, Decimal.readWord? x = some n ∧ IsNumber x ∧ value x = n.toNat) ∨
      Decimal.readWord? x = none ∧ ¬IsNumber x := by
  cases hread : Decimal.readWord? x with
  | some n => exact .inl ⟨n, rfl, (Decimal.readWord?_eq_some_iff h.plus_notMem).1 hread⟩
  | none =>
    refine .inr ⟨rfl, fun hnumber => ?_⟩
    have hword : value x = (UInt64.ofNat (value x)).toNat :=
      (UInt64.toNat_ofNat_of_lt (hfits hnumber)).symm
    rw [(Decimal.readWord?_eq_some_iff h.plus_notMem).2 ⟨hnumber, hword⟩] at hread
    cases hread

theorem rules_numbers (hx : IsNumber x) (hy : IsNumber y) :
    (Before x y ↔ value x < value y) ∧ (Level x y ↔ value x = value y) := by
  refine ⟨⟨fun h => ?_, .number hx hy⟩, fun h => ?_, .number hx hy⟩
  · cases h with
    | number _ _ h => exact h
    | mixed _ h => exact absurd hy h
    | text h => exact absurd hx h
  · cases h with
    | number _ _ h => exact h
    | text => rfl

theorem rules_texts (hx : ¬IsNumber x) (hy : ¬IsNumber y) :
    (Before x y ↔ bytes x < bytes y) ∧ (Level x y ↔ x = y) := by
  refine ⟨⟨fun h => ?_, .text hx hy⟩, fun h => ?_, fun h => h ▸ .text x⟩
  · cases h with
    | number h => exact absurd h hx
    | mixed h => exact absurd h hx
    | text _ _ h => exact h
  · cases h with
    | number h => exact absurd h hx
    | text => rfl

theorem rules_mixed (hx : IsNumber x) (hy : ¬IsNumber y) :
    Before x y ∧ ¬Before y x ∧ ¬Level x y ∧ ¬Level y x := by
  refine ⟨.mixed hx hy, fun h => ?_, fun h => ?_, fun h => ?_⟩
  · cases h with
    | number h => exact hy h
    | mixed h => exact hy h
    | text _ h => exact h hx
  · cases h with
    | number _ h => exact hy h
    | text => exact hy hx
  · cases h with
    | number h => exact hy h
    | text => exact hy hx

/-- Identifiers are compared by the rules. -/
theorem compareIdentifiers_iff (hx : Plain x) (hy : Plain y) (hxfits : Fits x) (hyfits : Fits y) :
    (Version.compareIdentifiers x y = .lt ↔ Before x y) ∧
      (Version.compareIdentifiers x y = .eq ↔ Level x y) := by
  rw [Version.compareIdentifiers]
  rcases hx.readWord? hxfits with ⟨m, hm, hxnumber, hxvalue⟩ | ⟨hm, hxtext⟩
  · rcases hy.readWord? hyfits with ⟨n, hn, hynumber, hyvalue⟩ | ⟨hn, hytext⟩
    · obtain ⟨hbefore, hlevel⟩ := rules_numbers hxnumber hynumber
      rw [hm, hn, hbefore, hlevel, hxvalue, hyvalue]
      exact ⟨Std.compare_eq_lt.trans UInt64.lt_iff_toNat_lt,
        Std.compare_eq_iff_eq.trans UInt64.toNat_inj.symm⟩
    · obtain ⟨hbefore, -, hlevel, -⟩ := rules_mixed hxnumber hytext
      rw [hm, hn]
      exact ⟨iff_of_true rfl hbefore, iff_of_false nofun hlevel⟩
  · rcases hy.readWord? hyfits with ⟨n, hn, hynumber, hyvalue⟩ | ⟨hn, hytext⟩
    · obtain ⟨-, hbefore, -, hlevel⟩ := rules_mixed hynumber hxtext
      rw [hm, hn]
      exact ⟨iff_of_false nofun hbefore, iff_of_false nofun hlevel⟩
    · obtain ⟨hbefore, hlevel⟩ := rules_texts hxtext hytext
      rw [hm, hn, hbefore, hlevel]
      exact ⟨compare_eq_lt_iff hx hy, Std.compare_eq_iff_eq⟩

/-- Lists of identifiers are compared by the rules. -/
theorem compareLex_eq_lt_iff (hxs : ∀ x ∈ xs, Plain x ∧ Fits x) (hys : ∀ y ∈ ys, Plain y ∧ Fits y) :
    List.compareLex Version.compareIdentifiers xs ys = .lt ↔ ListBefore xs ys := by
  induction xs generalizing ys with
  | nil =>
    cases ys with
    | nil => exact ⟨nofun, nofun⟩
    | cons y ys => exact ⟨fun _ => .shorter y ys, fun _ => rfl⟩
  | cons x xs ih =>
    obtain ⟨⟨hx, hxfits⟩, hxs⟩ := List.forall_mem_cons.1 hxs
    cases ys with
    | nil => exact ⟨nofun, nofun⟩
    | cons y ys =>
      obtain ⟨⟨hy, hyfits⟩, hys⟩ := List.forall_mem_cons.1 hys
      obtain ⟨hlt, heq⟩ := compareIdentifiers_iff hx hy hxfits hyfits
      rw [List.compareLex_cons_cons, Ordering.then_eq_lt, hlt, heq, ih hxs hys]
      constructor
      · rintro (h | ⟨hlevel, h⟩)
        · exact .here h
        · exact .later hlevel h
      · rintro (_ | h | ⟨hlevel, h⟩)
        · exact .inl h
        · exact .inr ⟨hlevel, h⟩

end Identifier

namespace Version

variable {v w : Version}

/-- The identifiers of the pre-release; a release has none. -/
def identifiers (v : Version) : List String :=
  if v.pre = "" then [] else Text.pieces '.' v.pre

/-- The first version comes before the second. -/
inductive Precedes (v w : Version) : Prop where
  | major : v.major < w.major → Precedes v w
  | minor : v.major = w.major → v.minor < w.minor → Precedes v w
  | patch : v.major = w.major → v.minor = w.minor → v.patch < w.patch → Precedes v w
  /-- A pre-release comes before its release. -/
  | release : v.major = w.major → v.minor = w.minor → v.patch = w.patch →
      v.identifiers ≠ [] → w.identifiers = [] → Precedes v w
  /-- Pre-releases of one release are compared by their identifiers. -/
  | prerelease : v.major = w.major → v.minor = w.minor → v.patch = w.patch →
      v.identifiers ≠ [] → Identifier.ListBefore v.identifiers w.identifiers → Precedes v w

/-- The identifiers are made of letters, digits and hyphens. -/
def Plain (v : Version) : Prop :=
  ∀ x ∈ v.identifiers, Identifier.Plain x

/-- The numbers among the identifiers have at most 64 bits. -/
def Fits (v : Version) : Prop :=
  ∀ x ∈ v.identifiers, Identifier.Fits x

instance : DecidablePred Plain := fun v =>
  inferInstanceAs (Decidable (∀ x ∈ v.identifiers, Identifier.Plain x))

instance : DecidablePred Fits := fun v =>
  inferInstanceAs (Decidable (∀ x ∈ v.identifiers, Identifier.Fits x))

theorem identifiers_eq_nil_iff : v.identifiers = [] ↔ v.pre = "" := by
  rw [identifiers]
  split
  · rename_i h
    exact ⟨fun _ => h, fun _ => rfl⟩
  · rename_i h
    exact ⟨fun hnil => absurd hnil Text.pieces_ne_nil, fun hpre => absurd hpre h⟩

theorem comparePre_eq_lt_iff (hv : v.Plain) (hw : w.Plain) (hvfits : v.Fits) (hwfits : w.Fits) :
    comparePre v.pre w.pre = .lt ↔ v.identifiers ≠ [] ∧
      (w.identifiers = [] ∨ Identifier.ListBefore v.identifiers w.identifiers) := by
  have hpieces {v : Version} (h : v.pre.isEmpty = false) :
      v.identifiers = Text.pieces '.' v.pre :=
    if_neg (by simpa using h)
  rw [comparePre, Ne, identifiers_eq_nil_iff, identifiers_eq_nil_iff, ← String.isEmpty_iff,
    ← String.isEmpty_iff]
  cases hvpre : v.pre.isEmpty <;> cases hwpre : w.pre.isEmpty
  · rw [← hpieces hvpre, ← hpieces hwpre, Identifier.compareLex_eq_lt_iff
      (fun x hx => ⟨hv x hx, hvfits x hx⟩) fun y hy => ⟨hw y hy, hwfits y hy⟩]
    simp
  · simp
  · simp
  · simp

theorem compare_eq_lt_iff (hv : v.Plain) (hw : w.Plain) (hvfits : v.Fits) (hwfits : w.Fits) :
    v.compare w = .lt ↔ v.Precedes w := by
  rw [compare, Ordering.then_eq_lt, Ordering.then_eq_lt, Ordering.then_eq_lt, Std.compare_eq_lt,
    Std.compare_eq_lt, Std.compare_eq_lt, Std.compare_eq_iff_eq, Std.compare_eq_iff_eq,
    Std.compare_eq_iff_eq, comparePre_eq_lt_iff hv hw hvfits hwfits]
  constructor
  · rintro (h | ⟨hmajor, h | ⟨hminor, h | ⟨hpatch, hpre, h | h⟩⟩⟩)
    · exact .major h
    · exact .minor hmajor h
    · exact .patch hmajor hminor h
    · exact .release hmajor hminor hpatch hpre h
    · exact .prerelease hmajor hminor hpatch hpre h
  · rintro (h | ⟨hmajor, h⟩ | ⟨hmajor, hminor, h⟩ | ⟨hmajor, hminor, hpatch, hpre, h⟩ |
      ⟨hmajor, hminor, hpatch, hpre, h⟩)
    · exact .inl h
    · exact .inr ⟨hmajor, .inl h⟩
    · exact .inr ⟨hmajor, .inr ⟨hminor, .inl h⟩⟩
    · exact .inr ⟨hmajor, .inr ⟨hminor, .inr ⟨hpatch, hpre, .inl h⟩⟩⟩
    · exact .inr ⟨hmajor, .inr ⟨hminor, .inr ⟨hpatch, hpre, .inr h⟩⟩⟩

/-- Versions are compared by the rules, if the numbers in their pre-releases fit. -/
theorem compare_eq_precedence (hv : v.Plain) (hw : w.Plain) (hvfits : v.Fits) (hwfits : w.Fits) :
    (v.compare w = .lt ↔ v.Precedes w) ∧ (v.compare w = .gt ↔ w.Precedes v) ∧
      (v.compare w = .eq ↔ ¬v.Precedes w ∧ ¬w.Precedes v) := by
  have hlt := compare_eq_lt_iff hv hw hvfits hwfits
  have hgt : v.compare w = .gt ↔ w.Precedes v := by
    rw [← compare_eq_lt_iff hw hv hwfits hvfits]
    exact Std.OrientedCmp.gt_iff_lt
  refine ⟨hlt, hgt, ?_⟩
  rw [← hlt, ← hgt]
  cases v.compare w <;> decide

/-- The pre-releases of one release. -/
def candidate (pre : String) : Version :=
  { major := 1, minor := 0, patch := 0, pre }

theorem compare_eq_precedence_candidates :
    (∀ pre ∈ ["rc-1.18446744073709551615", "rc-1.9-x"],
      (candidate pre).Plain ∧ (candidate pre).Fits) ∧
      (candidate "rc-1.18446744073709551615").Precedes (candidate "rc-1.9-x") := by
  have hboth : ∀ pre ∈ ["rc-1.18446744073709551615", "rc-1.9-x"],
      (candidate pre).Plain ∧ (candidate pre).Fits := by decide +kernel
  obtain ⟨hv, hvfits⟩ := hboth _ List.mem_cons_self
  obtain ⟨hw, hwfits⟩ := hboth _ (List.mem_cons_of_mem _ List.mem_cons_self)
  exact ⟨hboth, (compare_eq_precedence hv hw hvfits hwfits).1.1 rfl⟩

/-- A number that does not fit comes after a greater one, and after other texts. -/
theorem long_numbers_misplaced :
    parse "1.0.0-99999999999999999999" = .ok (candidate "99999999999999999999") ∧
      parse "1.0.0-100000000000000000000" = .ok (candidate "100000000000000000000") ∧
      parse "1.0.0--" = .ok (candidate "-") ∧
      (∀ pre ∈ ["99999999999999999999", "100000000000000000000", "-"], (candidate pre).Plain) ∧
      (candidate "99999999999999999999").Precedes (candidate "100000000000000000000") ∧
      (candidate "99999999999999999999").compare (candidate "100000000000000000000") = .gt ∧
      (candidate "99999999999999999999").Precedes (candidate "-") ∧
      (candidate "99999999999999999999").compare (candidate "-") = .gt := by
  have hnines : Identifier.IsNumber "99999999999999999999" := by decide +kernel
  have hpower : Identifier.IsNumber "100000000000000000000" := by decide +kernel
  have hhyphen : ¬Identifier.IsNumber "-" := by decide +kernel
  have hless : Identifier.value "99999999999999999999" <
      Identifier.value "100000000000000000000" := by decide +kernel
  exact ⟨rfl, rfl, rfl, by decide +kernel,
    .prerelease rfl rfl rfl (by decide +kernel) (.here (.number hnines hpower hless)), rfl,
    .prerelease rfl rfl rfl (by decide +kernel) (.here (.mixed hnines hhyphen)), rfl⟩

end Version

end ComponentAbi
