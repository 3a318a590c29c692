import ComponentAbi.Proofs.Names.Written

/-!
# Reading versions that were written

The written form of a version reads back as that version (`Version.parse_toText`), unless its
pre-release has the mark of build metadata in it. So versions that are written alike are equal.
-/

namespace ComponentAbi

namespace Decimal

variable {cs : List Char} {n : Nat}

theorem digit?_of_isDigit {c : Char} (h : c.isDigit) : digit? c = some (c.toNat - '0'.toNat) := by
  have hc : '0' ≤ c ∧ c ≤ '9' := by
    simpa [Char.isDigit, Char.le_def] using h
  rw [digit?, if_pos hc]

theorem foldlM_digits (h : ∀ c ∈ cs, c.isDigit) (n : Nat) :
    cs.foldlM (fun n c => (digit? c).map (10 * n + ·)) n = some (Nat.ofDigitChars 10 cs n) := by
  induction cs generalizing n with
  | nil => rfl
  | cons c rest ih =>
    rw [List.foldlM_cons, digit?_of_isDigit (h c List.mem_cons_self), Nat.ofDigitChars_cons]
    exact ih (fun d hd => h d (List.mem_cons_of_mem _ hd)) _

/-- A number that was written in digits reads back. -/
theorem read?_toDigits (n : Nat) : read? (Nat.toDigits 10 n) = some n := by
  have hdigits : ∀ c ∈ Nat.toDigits 10 n, c.isDigit := fun c hc =>
    Nat.isDigit_of_mem_toDigits (by omega) (by omega) hc
  have hne : Nat.toDigits 10 n ≠ [] := by
    rw [Nat.toDigits_eq_if (by omega)]
    split <;> simp
  rw [read?.eq_2 _ hne, foldlM_digits hdigits, Nat.ofDigitChars_toDigits (by omega) (by omega)]

theorem toList_toString (n : UInt64) : (toString n).toList = Nat.toDigits 10 n.toNat :=
  Nat.toList_repr

theorem isDigit_of_mem_toString {n : UInt64} {c : Char} (h : c ∈ (toString n).toList) :
    c.isDigit := by
  rw [toList_toString] at h
  exact Nat.isDigit_of_mem_toDigits (by omega) (by omega) h

theorem readWord?_toString (n : UInt64) : readWord? (toString n) = some n := by
  have hplus : '+' ∉ (toString n).toList := fun h => absurd (isDigit_of_mem_toString h) (by decide)
  have hn : n.toNat < UInt64.size := n.toNat_lt_size
  rw [toList_toString] at hplus
  rw [readWord?, toList_toString]
  split
  · rename_i rest hrest
    rw [hrest] at hplus
    simp at hplus
  · simp [read?_toDigits, hn]

end Decimal

namespace Version

variable {v w : Version}

theorem readComponent_toString (component : VersionComponent) (full : String) (n : UInt64) :
    readComponent component full (some (toString n)) = .ok n := by
  have hne : (toString n).isEmpty = false := by
    have : Nat.toDigits 10 n.toNat ≠ [] := by
      rw [Nat.toDigits_eq_if (by omega)]
      split <;> simp
    rw [← Decimal.toList_toString] at this
    simpa using this
  simp [readComponent, hne, Decimal.readWord?_toString]

/-- An optional part after its mark is cut off again. -/
theorem getD_cutFirst_suffix {mark : Char} {written front part : String}
    (hmark : written.toList = [mark]) (h : mark ∉ front.toList) :
    let suffix := if part.isEmpty then "" else written ++ part
    (Text.cutFirst mark (front ++ suffix)).getD (front ++ suffix, "") = (front, part) := by
  by_cases hpart : part = ""
  · simp [hpart, Text.cutFirst_eq_none h]
  · have hcut : Text.cutFirst mark (front ++ (written ++ part)) = some (front, part) :=
      Text.cutFirst_of_toList (by simp [hmark]) h
    simp [hpart, hcut]

/-- The three numbers of a version in writing. -/
def numbersText (v : Version) : String :=
  toString v.major ++ "." ++ toString v.minor ++ "." ++ toString v.patch

theorem mem_numbersText {c : Char} (h : c ∈ v.numbersText.toList) : c = '.' ∨ c.isDigit := by
  simp only [numbersText, String.toList_append, List.mem_append] at h
  rcases h with (((h | h) | h) | h) | h
  · exact .inr (Decimal.isDigit_of_mem_toString h)
  · exact .inl (by simpa using h)
  · exact .inr (Decimal.isDigit_of_mem_toString h)
  · exact .inl (by simpa using h)
  · exact .inr (Decimal.isDigit_of_mem_toString h)

theorem pieces_numbersText :
    Text.pieces '.' v.numbersText = [toString v.major, toString v.minor, toString v.patch] := by
  refine Text.pieces_of_toList (by simp) ?_ ?_
  · have hdot (n : UInt64) : '.' ∉ (toString n).toList := fun h =>
      absurd (Decimal.isDigit_of_mem_toString h) (by decide)
    simp only [List.forall_mem_cons]
    exact ⟨hdot _, hdot _, hdot _, by simp⟩
  · simp [numbersText, List.intercalate_cons_cons, List.intercalate_singleton]

/-- The written form of a version reads back as that version. -/
theorem parse_toText (hpre : '+' ∉ v.pre.toList) : parse v.toText = .ok v := by
  let pre := if v.pre.isEmpty then "" else "-" ++ v.pre
  let build := if v.build.isEmpty then "" else "+" ++ v.build
  have htext : v.toText = v.numbersText ++ pre ++ build := rfl
  have hmark {c : Char} (hdot : c ≠ '.') (hdigit : c.isDigit = false) :
      c ∉ v.numbersText.toList := by
    intro h
    rcases mem_numbersText h with h | h
    · exact hdot h
    · simp [hdigit] at h
  have hplus : '+' ∉ (v.numbersText ++ pre).toList := by
    have hnumbers : '+' ∉ v.numbersText.toList := hmark (by decide) (by decide)
    simp only [pre]
    split <;> simp [hnumbers, hpre]
  have hbuild :
      (Text.cutFirst '+' v.toText).getD (v.toText, "") = (v.numbersText ++ pre, v.build) :=
    getD_cutFirst_suffix rfl hplus
  have hcut : (Text.cutFirst '-' (v.numbersText ++ pre)).getD (v.numbersText ++ pre, "") =
      (v.numbersText, v.pre) := getD_cutFirst_suffix rfl (hmark (by decide) (by decide))
  have hne : v.toText ≠ "" := by
    simp [htext, numbersText]
  rw [parse]
  simp only [String.isEmpty_iff, hne, hbuild, hcut, pieces_numbersText]
  simp [readComponent_toString, bind, Except.bind]
  rfl

end Version

end ComponentAbi
