import ComponentAbi.Marshal.Leaf
import ComponentAbi.Proofs.Except
import Mathlib.Data.List.Induction

/-!
# Sets of flags as bits

The bits of a set of flags say for every label whether it is in the set, by the first position at
which the label is declared (`Leaf.testBit_flagBits`). Reading them back gives the declared labels
that are in the set, each of them once and in the order of their declaration
(`Leaf.setFlags_flagBits`).
-/

namespace ComponentAbi

namespace Leaf

variable {labels set : List String} {bits : Nat}

theorem flagBits_cons {label : String} (h : flagBits labels (label :: set) = .ok bits) :
    ∃ i more, labels.idxOf? label = some i ∧ flagBits labels set = .ok more ∧
      bits = 2 ^ i ||| more := by
  rw [flagBits] at h
  split at h
  · cases h
  · rename_i i hi
    obtain ⟨more, hm, he⟩ := Except.map_eq_ok.1 h
    exact ⟨i, more, hi, hm, he.symm⟩

/-- A bit is set if it is that of a label in the set. -/
theorem testBit_flagBits (h : flagBits labels set = .ok bits) (i : Nat) :
    bits.testBit i = true ↔ ∃ label ∈ set, labels.idxOf? label = some i := by
  induction set generalizing bits with
  | nil =>
    cases h
    simp
  | cons label set ih =>
    obtain ⟨j, more, hj, hm, rfl⟩ := flagBits_cons h
    rw [Nat.testBit_or, Nat.testBit_two_pow, Bool.or_eq_true, ih hm, decide_eq_true_iff]
    constructor
    · rintro (rfl | ⟨other, ho, hi⟩)
      · exact ⟨label, List.mem_cons_self, hj⟩
      · exact ⟨other, List.mem_cons_of_mem _ ho, hi⟩
    · rintro ⟨other, ho, hi⟩
      rcases List.mem_cons.1 ho with rfl | ho
      · exact .inl (Option.some.inj (hj.symm.trans hi))
      · exact .inr ⟨other, ho, hi⟩

theorem flagBits_lt (h : flagBits labels set = .ok bits) : bits < 2 ^ labels.length := by
  induction set generalizing bits with
  | nil =>
    cases h
    exact Nat.two_pow_pos _
  | cons label set ih =>
    obtain ⟨i, more, hi, hm, rfl⟩ := flagBits_cons h
    obtain ⟨hlt, -⟩ := List.idxOf?_eq_some_iff.1 hi
    exact Nat.or_lt_two_pow (Nat.pow_lt_pow_right (Nat.lt_succ_self 1) hlt) (ih hm)

theorem exists_flagBits (h : ∀ label ∈ set, label ∈ labels) :
    ∃ bits, flagBits labels set = .ok bits := by
  induction set with
  | nil => exact ⟨0, rfl⟩
  | cons label set ih =>
    obtain ⟨hlabel, hset⟩ := List.forall_mem_cons.1 h
    obtain ⟨more, hmore⟩ := ih hset
    cases hi : labels.idxOf? label with
    | none => exact absurd hlabel (List.idxOf?_eq_none_iff.1 hi)
    | some i => exact ⟨2 ^ i ||| more, by rw [flagBits, hi, hmore]; rfl⟩

theorem idxOf?_append (label : String) (more : List String) :
    (labels ++ more).idxOf? label =
      (labels.idxOf? label).or ((more.idxOf? label).map (· + labels.length)) := by
  induction labels with
  | nil => simp
  | cons other labels ih =>
    rw [List.cons_append, List.idxOf?_cons, List.idxOf?_cons, ih]
    split
    · rfl
    · cases labels.idxOf? label <;> cases more.idxOf? label <;> simp [Nat.add_assoc]

/-- Every label at its first position, that is, the labels without their repetitions. -/
theorem filter_firsts (p : String → Bool) (labels : List String) :
    (labels.zipIdx.filter fun (label, i) => labels.idxOf? label == some i && p label).map (·.1) =
      labels.eraseDups.filter p := by
  induction labels using List.reverseRecOn with
  | nil => rfl
  | append_singleton labels label ih =>
    rw [List.zipIdx_append, List.filter_append, List.map_append, List.eraseDups_append,
      List.filter_append]
    congr 1
    · rw [← ih]
      congr 1
      refine List.filter_congr fun entry hm => ?_
      have hlabel : entry.1 ∈ labels := List.mem_zipIdx' hm |>.2 ▸ List.getElem_mem _
      obtain ⟨i, hi⟩ := Option.isSome_iff_exists.1 (List.isSome_idxOf?.2 hlabel)
      simp only [idxOf?_append, hi, Option.some_or]
    · by_cases hm : label ∈ labels
      · obtain ⟨i, hi⟩ := Option.isSome_iff_exists.1 (List.isSome_idxOf?.2 hm)
        obtain ⟨hlt, -⟩ := List.idxOf?_eq_some_iff.1 hi
        have hne : i ≠ labels.length := Nat.ne_of_lt hlt
        simp [idxOf?_append, hi, List.removeAll, hm, hne]
      · have hi := List.idxOf?_eq_none_iff.2 hm
        by_cases hp : p label <;>
          simp [idxOf?_append, hi, List.removeAll, hm, hp, List.eraseDups_cons]

theorem sublist_setFlags (labels : List String) (bits : Nat) :
    (setFlags labels bits).Sublist labels := by
  have h := (labels.zipIdx.filter_sublist (p := fun (_, i) => bits.testBit i)).map (·.1)
  rwa [List.zipIdx_map_fst] at h

/-- What is read back of a set are its labels in the order of their declaration. -/
theorem setFlags_flagBits (h : flagBits labels set = .ok bits) :
    setFlags labels bits = labels.eraseDups.filter (· ∈ set) := by
  rw [← filter_firsts, setFlags]
  congr 1
  refine List.filter_congr fun entry hm => ?_
  obtain ⟨hlt, hentry⟩ := List.mem_zipIdx' hm
  rw [Bool.eq_iff_iff, testBit_flagBits h, Bool.and_eq_true, beq_iff_eq, decide_eq_true_iff]
  constructor
  · rintro ⟨label, hl, hi⟩
    obtain ⟨hlt', he, -⟩ := List.idxOf?_eq_some_iff.1 hi
    have : label = entry.1 := by
      rw [hentry]
      exact he.symm
    subst this
    exact ⟨hi, hl⟩
  · rintro ⟨hi, hl⟩
    exact ⟨entry.1, hl, hi⟩

end Leaf

end ComponentAbi
