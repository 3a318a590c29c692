import ComponentAbi.Proofs.Names.Precedence
import Mathlib.Data.List.Induction

/-!
# Versions as keys

Versions that are the same may be written with different pre-releases, as numbers in them are
compared by value: `1.0.0-1` and `1.0.0-01` are the same version, and have different hash keys
(`same_apart`). If numbers are written as semantic versioning asks for, without leading zeros and
signs, versions are the same if and only if they have one hash key, and so are the references and
type names that are made with them (`keys_agree`).
-/

namespace ComponentAbi

namespace Identifier

variable {x y : String} {xs ys : List String}

/-- The identifier has no sign, and no leading zeros if it is a number. -/
structure Canonical (x : String) : Prop where
  /-- There is no sign. -/
  unsigned : '+' ∉ x.toList
  /-- Only the number zero starts with a zero. -/
  leading : IsNumber x → x.toList.head? = some '0' → x = "0"

instance : DecidablePred Canonical := fun x =>
  decidable_of_iff ('+' ∉ x.toList ∧ (IsNumber x → x.toList.head? = some '0' → x = "0"))
    ⟨fun h => ⟨h.1, h.2⟩, fun h => ⟨h.1, h.2⟩⟩

theorem digitChar_of_isDigit {c : Char} (h : c.isDigit) :
    c.toNat - '0'.toNat < 10 ∧ Nat.digitChar (c.toNat - '0'.toNat) = c := by
  have hc : '0'.toNat ≤ c.toNat ∧ c.toNat ≤ '9'.toNat := by
    simpa [Char.isDigit, UInt32.le_iff_toNat_le] using h
  have hzero : '0'.toNat = 48 := rfl
  have hnine : '9'.toNat = 57 := rfl
  have hlt : c.toNat - '0'.toNat < 10 := by omega
  refine ⟨hlt, Char.toNat_inj.1 ?_⟩
  rw [Nat.toNat_digitChar_of_lt_ten hlt]
  omega

/-- Digits without leading zeros are what their number is written with. -/
theorem toDigits_ofDigitChars {cs : List Char} (hne : cs ≠ []) (hdigits : ∀ c ∈ cs, c.isDigit)
    (hleading : cs.head? = some '0' → cs = ['0']) :
    Nat.toDigits 10 (Nat.ofDigitChars 10 cs 0) = cs := by
  -- The last digit is the remainder, and what stands before it has no leading zeros either.
  induction cs using List.reverseRecOn with
  | nil => exact absurd rfl hne
  | append_singleton front c ih =>
    obtain ⟨hfront, hc⟩ := List.forall_mem_append.1 hdigits
    obtain ⟨hlt, hdigit⟩ := digitChar_of_isDigit (hc c (List.mem_singleton_self c))
    have hvalue : Nat.ofDigitChars 10 (front ++ [c]) 0 =
        10 * Nat.ofDigitChars 10 front 0 + (c.toNat - '0'.toNat) := by
      rw [Nat.ofDigitChars_append, Nat.ofDigitChars_cons, Nat.ofDigitChars_nil]
    by_cases hnil : front = []
    · subst hnil
      rw [hvalue, Nat.ofDigitChars_nil, Nat.mul_zero, Nat.zero_add, Nat.toDigits_of_lt_base hlt,
        hdigit, List.nil_append]
    · have hhead : front.head? ≠ some '0' := fun hhead => by
        have hzero := hleading (by rw [List.head?_append, hhead]; rfl)
        have hlength := congrArg List.length hzero
        exact hnil (by simpa using hlength)
      have hfrontDigits := ih hnil hfront fun h => absurd h hhead
      have hpos : 0 < Nat.ofDigitChars 10 front 0 := by
        refine Nat.pos_of_ne_zero fun hzero => hhead ?_
        rw [← hfrontDigits, hzero]
        rfl
      rw [hvalue, Nat.toDigits_of_base_le (by omega) (by omega), Nat.mul_add_div (by omega),
        Nat.div_eq_of_lt hlt, Nat.mul_add_mod, Nat.mod_eq_of_lt hlt, hdigit, Nat.add_zero,
        hfrontDigits]

theorem Canonical.toDigits_value (h : Canonical x) (hx : IsNumber x) :
    Nat.toDigits 10 (value x) = x.toList := by
  refine toDigits_ofDigitChars (by simpa using hx.1) hx.2 fun hhead => ?_
  rw [h.leading hx hhead]
  rfl

/-- Identifiers that compare as level are equal. -/
theorem Canonical.eq_of_compare (hx : Canonical x) (hy : Canonical y)
    (h : Version.compareIdentifiers x y = .eq) : x = y := by
  rw [Version.compareIdentifiers] at h
  split at h
  · rename_i m n hm hn
    obtain ⟨hxnumber, hxvalue⟩ := (Decimal.readWord?_eq_some_iff hx.unsigned).1 hm
    obtain ⟨hynumber, hyvalue⟩ := (Decimal.readWord?_eq_some_iff hy.unsigned).1 hn
    cases Std.compare_eq_iff_eq.1 h
    rw [← String.toList_inj, ← hx.toDigits_value hxnumber, ← hy.toDigits_value hynumber, hxvalue,
      hyvalue]
  · cases h
  · cases h
  · exact Std.compare_eq_iff_eq.1 h

theorem eq_of_compareLex (hxs : ∀ x ∈ xs, Canonical x) (hys : ∀ y ∈ ys, Canonical y)
    (h : List.compareLex Version.compareIdentifiers xs ys = .eq) : xs = ys := by
  induction xs generalizing ys with
  | nil =>
    cases ys with
    | nil => rfl
    | cons => cases h
  | cons x xs ih =>
    cases ys with
    | nil => cases h
    | cons y ys =>
      obtain ⟨hx, hxs⟩ := List.forall_mem_cons.1 hxs
      obtain ⟨hy, hys⟩ := List.forall_mem_cons.1 hys
      rw [List.compareLex_cons_cons, Ordering.then_eq_eq] at h
      rw [hx.eq_of_compare hy h.1, ih hxs hys h.2]

end Identifier

namespace Version

variable {v w : Version}

/-- The identifiers of the pre-release are canonical. -/
def Canonical (v : Version) : Prop :=
  ∀ x ∈ v.identifiers, Identifier.Canonical x

instance : DecidablePred Canonical := fun v =>
  inferInstanceAs (Decidable (∀ x ∈ v.identifiers, Identifier.Canonical x))

theorem pre_eq_of_comparePre (hv : v.Canonical) (hw : w.Canonical)
    (h : comparePre v.pre w.pre = .eq) : v.pre = w.pre := by
  rw [comparePre] at h
  split at h
  · rename_i hvpre hwpre
    rw [String.isEmpty_iff.1 hvpre, String.isEmpty_iff.1 hwpre]
  · cases h
  · cases h
  · rename_i hvpre hwpre
    rw [Canonical, identifiers, if_neg (by simpa using hvpre)] at hv
    rw [Canonical, identifiers, if_neg (by simpa using hwpre)] at hw
    exact Text.pieces_inj (Identifier.eq_of_compareLex hv hw h)

/-- Versions with one hash key are the same. -/
theorem same_of_hashKey (h : v.hashKey = w.hashKey) : v.same w := by
  simp only [hashKey, Prod.mk.injEq] at h
  obtain ⟨hmajor, hminor, hpatch, hpre⟩ := h
  have hself : comparePre w.pre w.pre = .eq := Std.ReflCmp.compare_self
  simp [same, compare, hmajor, hminor, hpatch, hpre, hself]

/-- If numbers are written without leading zeros and signs, exactly the versions that are the same
have one hash key. -/
theorem same_iff_hashKey (hv : v.Canonical) (hw : w.Canonical) :
    v.same w ↔ v.hashKey = w.hashKey := by
  refine ⟨fun h => ?_, same_of_hashKey⟩
  simp only [same, compare, beq_iff_eq, Ordering.then_eq_eq, Std.compare_eq_iff_eq] at h
  obtain ⟨hmajor, hminor, hpatch, hpre⟩ := h
  rw [hashKey, hashKey, hmajor, hminor, hpatch, pre_eq_of_comparePre hv hw hpre]

end Version

namespace PackageRef

variable {p q : PackageRef}

/-- What a hash table sees of a reference. -/
def hashKey (p : PackageRef) : PackageName × Option (UInt64 × UInt64 × UInt64 × String) :=
  (p.name, p.version.map Version.hashKey)

/-- The version, if there is one, has a canonical pre-release. -/
def Canonical (p : PackageRef) : Prop :=
  ∀ v ∈ p.version, v.Canonical

theorem same_iff_hashKey (hp : p.Canonical) (hq : q.Canonical) :
    p.same q ↔ p.hashKey = q.hashKey := by
  obtain ⟨m, v⟩ := p
  obtain ⟨n, w⟩ := q
  rw [same, Bool.and_eq_true, beq_iff_eq, hashKey, hashKey, Prod.mk.injEq]
  refine and_congr_right fun _ => ?_
  cases v with
  | none => cases w <;> simp [sameVersion]
  | some v =>
    cases w with
    | none => simp [sameVersion]
    | some w => simp [sameVersion, Version.same_iff_hashKey (hp v rfl) (hq w rfl)]

end PackageRef

namespace TypeName

/-- The two names are of one shape. -/
def same (m n : TypeName) : Bool :=
  m.package.same n.package && m.name == n.name

/-- What a hash table sees of a type name. -/
def hashKey (n : TypeName) :
    (PackageName × Option (UInt64 × UInt64 × UInt64 × String)) × String :=
  (n.package.hashKey, n.name)

variable {m n : TypeName}

theorem same_iff_hashKey (hm : m.package.Canonical) (hn : n.package.Canonical) :
    m.same n ↔ m.hashKey = n.hashKey := by
  rw [same, Bool.and_eq_true, beq_iff_eq, hashKey, hashKey, Prod.mk.injEq,
    PackageRef.same_iff_hashKey hm hn]

end TypeName

/-- If numbers are written without leading zeros and signs, exactly the versions that are the same
have one hash key, and exactly the references and type names with such versions that are. -/
theorem keys_agree {v w : Version} {p q : PackageRef} {m n : TypeName} (hv : v.Canonical)
    (hw : w.Canonical) (hp : p.Canonical) (hq : q.Canonical) (hm : m.package.Canonical)
    (hn : n.package.Canonical) :
    (v.same w ↔ v.hashKey = w.hashKey) ∧ (p.same q ↔ p.hashKey = q.hashKey) ∧
      (m.same n ↔ m.hashKey = n.hashKey) :=
  ⟨Version.same_iff_hashKey hv hw, PackageRef.same_iff_hashKey hp hq,
    TypeName.same_iff_hashKey hm hn⟩

/-- A type of a package that was built twice. -/
def built (pre build : String) : TypeName where
  package := { name := { namespaces := ["ns"], path := ["geo"] }
               version := some { Version.candidate pre with build } }
  name := "point"

theorem keys_agree_built : (Version.candidate "rc.10").Canonical ∧
    (built "rc.10" "a").package.Canonical ∧ (built "rc.10" "b").package.Canonical ∧
    { Version.candidate "rc.10" with build := "a" }.hashKey = (Version.candidate "rc.10").hashKey ∧
    (built "rc.10" "a").package.hashKey = (built "rc.10" "b").package.hashKey ∧
    (built "rc.10" "a").hashKey = (built "rc.10" "b").hashKey := by
  have hversion : (Version.candidate "rc.10").Canonical := by decide +kernel
  have hpackage (build : String) : (built "rc.10" build).package.Canonical := by
    rintro v ⟨⟩
    exact hversion
  have hbuild : { Version.candidate "rc.10" with build := "a" }.Canonical := hversion
  obtain ⟨hversions, hpackages, htypes⟩ := keys_agree hbuild hversion (hpackage "a") (hpackage "b")
    (hpackage "a") (hpackage "b")
  exact ⟨hversion, hpackage "a", hpackage "b", hversions.1 rfl, hpackages.1 rfl, htypes.1 rfl⟩

/-- The same version may be written in two ways, with different hash keys, and so may what is named
with it. -/
theorem same_apart :
    Version.parse "1.0.0-01" = .ok (Version.candidate "01") ∧
      Version.parse "1.0.0-1" = .ok (Version.candidate "1") ∧
      (Version.candidate "01").same (Version.candidate "1") ∧
      (Version.candidate "01").hashKey ≠ (Version.candidate "1").hashKey ∧
      (built "01" "").same (built "1" "") ∧ (built "01" "").hashKey ≠ (built "1" "").hashKey :=
  ⟨rfl, rfl, rfl, by decide, rfl, by decide⟩

end ComponentAbi
