import ComponentAbi.Package
import Mathlib.Order.Compare

/-!
# Order of versions and package names

Precedence is an order in which different texts may name the same version: comparing is oriented and
transitive (`Version.compare`, `Package.compareVersions`), so versions that are the same compare
alike to all others (`Version.compare_lawful`). Package names that compare equal are equal
(`PackageName.compare`).
-/

namespace ComponentAbi

/-- Comparing by a key is as lawful as comparing the keys. -/
theorem transCmp_comap {α β : Type} (key : α → β) (cmp : β → β → Ordering) [Std.TransCmp cmp] :
    Std.TransCmp fun a b => cmp (key a) (key b) where
  eq_swap := Std.OrientedCmp.eq_swap
  isLE_trans := Std.TransCmp.isLE_trans

/-- The comparison puts everything in an order, in which just those that are the same are level. -/
structure OrdersUpTo {α : Type} (cmp : α → α → Ordering) (same : α → α → Bool) : Prop where
  /-- Everything is level with itself. -/
  refl : ∀ a, cmp a a = .eq
  /-- The other way round, the answer is reversed. -/
  swap : ∀ a b, cmp b a = (cmp a b).swap
  /-- If neither comes after the other, they are the same. -/
  antisymm : ∀ a b, (cmp a b).isLE → (cmp b a).isLE → same a b
  /-- One of two does not come after the other. -/
  total : ∀ a b, (cmp a b).isLE ∨ (cmp b a).isLE
  /-- Not to come after is transitive. -/
  trans : ∀ a b c, (cmp a b).isLE → (cmp b c).isLE → (cmp a c).isLE
  /-- To come before is transitive. -/
  lt_trans : ∀ a b c, cmp a b = .lt → cmp b c = .lt → cmp a c = .lt
  /-- The same ones are those that compare as level. -/
  same_iff : ∀ a b, same a b ↔ cmp a b = .eq
  /-- Being the same is an equivalence. -/
  equivalence : Equivalence fun a b => same a b = true

theorem OrdersUpTo.of_transCmp {α : Type} {cmp : α → α → Ordering} {same : α → α → Bool}
    [Std.TransCmp cmp] (h : ∀ a b, same a b ↔ cmp a b = .eq) : OrdersUpTo cmp same where
  refl _ := Std.ReflCmp.compare_self
  swap _ _ := Std.OrientedCmp.eq_swap
  antisymm a b hab hba := (h a b).2 (Std.OrientedCmp.isLE_antisymm hab hba)
  total a b := by
    rw [@Std.OrientedCmp.eq_swap _ cmp _ a b]
    cases cmp b a <;> decide
  trans _ _ _ := Std.TransCmp.isLE_trans
  lt_trans _ _ _ := Std.TransCmp.lt_trans
  same_iff := h
  equivalence :=
    ⟨fun a => (h a a).2 Std.ReflCmp.compare_self,
      fun {a b} hab => (h b a).2 (Std.OrientedCmp.eq_symm ((h a b).1 hab)),
      fun {a b c} hab hbc => (h a c).2 (Std.TransCmp.eq_trans ((h a b).1 hab) ((h b c).1 hbc))⟩

namespace Version

/-- Numbers come before all other identifiers. -/
instance : Std.TransCmp compareIdentifiers where
  eq_swap {x y} := by
    simp only [compareIdentifiers]
    cases Decimal.readWord? x <;> cases Decimal.readWord? y
    · exact @Std.OrientedCmp.eq_swap _ Ord.compare _ _ _
    · rfl
    · rfl
    · exact @Std.OrientedCmp.eq_swap _ Ord.compare _ _ _
  isLE_trans {x y z} := by
    simp only [compareIdentifiers]
    cases Decimal.readWord? x <;> cases Decimal.readWord? y <;> cases Decimal.readWord? z <;>
      first | exact @Std.TransCmp.isLE_trans _ Ord.compare _ _ _ _ | simp

/-- The empty pre-release comes after all others. -/
instance : Std.TransCmp comparePre where
  eq_swap {p q} := by
    simp only [comparePre]
    cases p.isEmpty <;> cases q.isEmpty
    · exact @Std.OrientedCmp.eq_swap _ (List.compareLex compareIdentifiers) _ _ _
    all_goals rfl
  isLE_trans {p q r} := by
    simp only [comparePre]
    cases p.isEmpty <;> cases q.isEmpty <;> cases r.isEmpty <;>
      first | exact @Std.TransCmp.isLE_trans _ (List.compareLex compareIdentifiers) _ _ _ _ | simp

instance : Std.TransCmp compare :=
  have := transCmp_comap pre comparePre
  inferInstanceAs (Std.TransCmp (compareLex (compareOn major) (compareLex (compareOn minor)
    (compareLex (compareOn patch) fun v w => comparePre v.pre w.pre))))

end Version

namespace Package

/-- Contents without a version come before all versions. -/
instance : Std.TransCmp compareVersions where
  eq_swap {v w} := by
    cases v <;> cases w
    · rfl
    · rfl
    · rfl
    · exact @Std.OrientedCmp.eq_swap _ Version.compare _ _ _
  isLE_trans {u v w} := by
    cases u <;> cases v <;> cases w <;>
      first | exact @Std.TransCmp.isLE_trans _ Version.compare _ _ _ _ | simp [compareVersions]

theorem sameVersion_iff {v w : Option Version} :
    PackageRef.sameVersion v w ↔ compareVersions v w = .eq := by
  cases v <;> cases w <;> simp [PackageRef.sameVersion, compareVersions, Version.same]

/-- Versions that are the same have the same contents. -/
theorem contents?_congr {p : Package} {v w : Option Version} (h : compareVersions v w = .eq) :
    p.contents? v = p.contents? w := by
  have heq (entry : Option Version × PackageContents) :
      compareVersions v entry.1 = compareVersions w entry.1 := Std.TransCmp.congr_left h
  simp only [contents?, heq]

end Package

/-- Comparing versions, and the keys that the contents of a package are kept under, is lawful, and
does not look at build metadata. -/
theorem Version.compare_lawful : OrdersUpTo Version.compare Version.same ∧
    OrdersUpTo Package.compareVersions PackageRef.sameVersion ∧
    ∀ (v w : Version) (build build' : String),
      { v with build }.compare { w with build := build' } = v.compare w ∧
        { v with build }.same { w with build := build' } = v.same w :=
  ⟨.of_transCmp fun _ _ => beq_iff_eq, .of_transCmp fun _ _ => Package.sameVersion_iff,
    fun _ _ _ _ => ⟨rfl, rfl⟩⟩

namespace PackageStore

/-- The spelling of a version does not matter. -/
theorem contents?_of_same {s : PackageStore} {name : PackageName} {v w : Version} (h : v.same w) :
    s.contents? { name, version := some v } = s.contents? { name, version := some w } := by
  have heq : Package.compareVersions (some v) (some w) = .eq := Package.sameVersion_iff.1 h
  simp only [contents?, Package.contents?_congr heq]

end PackageStore

namespace PackageName

instance : Std.TransCmp compare :=
  have := transCmp_comap namespaces (List.compareLex (Ord.compare (α := String)))
  have := transCmp_comap path (List.compareLex (Ord.compare (α := String)))
  inferInstanceAs (Std.TransCmp (compareLex
    (fun m n : PackageName => List.compareLex Ord.compare m.namespaces n.namespaces)
    fun m n : PackageName => List.compareLex Ord.compare m.path n.path))

/-- Package names that compare equal are equal. -/
instance : Std.LawfulEqCmp compare where
  eq_of_compare {m n} h := by
    obtain ⟨hns, hpath⟩ := Ordering.then_eq_eq.1 h
    exact congrArg₂ mk (Std.LawfulEqCmp.eq_of_compare hns) (Std.LawfulEqCmp.eq_of_compare hpath)

end PackageName

namespace PackageRef

/-- References are the same if they have one name, and versions neither of which comes first. -/
theorem same_iff {ref ref' : PackageRef} :
    ref.same ref' ↔ ref.name = ref'.name ∧
      Package.compareVersions ref.version ref'.version = .eq := by
  rw [same, Bool.and_eq_true, beq_iff_eq, Package.sameVersion_iff]

end PackageRef

end ComponentAbi
