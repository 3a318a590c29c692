/-!
# Separated text

Cutting text at a separator character: into all its pieces, or into the two parts around the first
or the last occurrence. Reading a reference or a version is a sequence of such cuts.

* `Text.cutFirstChars_eq_some_iff`: what the cut at the first separator returns.
* `Text.cutLastChars_eq_some_iff`: what the cut at the last separator returns.
-/

namespace ComponentAbi

namespace Text

/-- The parts of a text before and after its first `sep`. -/
def cutFirstChars (sep : Char) : List Char → Option (List Char × List Char)
  | [] => none
  | c :: rest =>
    if c = sep then some ([], rest)
    else (cutFirstChars sep rest).map fun parts => (c :: parts.1, parts.2)

/-- The parts of a text before and after its last `sep`. -/
def cutLastChars (sep : Char) : List Char → Option (List Char × List Char)
  | [] => none
  | c :: rest =>
    match cutLastChars sep rest with
    | some parts => some (c :: parts.1, parts.2)
    | none => if c = sep then some ([], rest) else none

/-- `cutFirstChars` on strings. -/
def cutFirst (sep : Char) (s : String) : Option (String × String) :=
  (cutFirstChars sep s.toList).map fun parts => (String.ofList parts.1, String.ofList parts.2)

/-- `cutLastChars` on strings. -/
def cutLast (sep : Char) (s : String) : Option (String × String) :=
  (cutLastChars sep s.toList).map fun parts => (String.ofList parts.1, String.ofList parts.2)

/-- The pieces of a text between its separators. There is always one more piece than separators. -/
def pieces (sep : Char) (s : String) : List String :=
  (s.toList.splitOn sep).map String.ofList

theorem cutFirstChars_eq_some_iff {sep : Char} {cs before after : List Char} :
    cutFirstChars sep cs = some (before, after) ↔ cs = before ++ sep :: after ∧ sep ∉ before := by
  induction cs generalizing before after with
  | nil => simp [cutFirstChars]
  | cons c rest ih =>
    by_cases h : c = sep
    · subst h
      cases before with
      | nil => simp [cutFirstChars]
      | cons b bs =>
        simp only [cutFirstChars, if_true, Option.some.injEq, Prod.mk.injEq, List.cons_append,
          List.cons.injEq]
        constructor
        · rintro ⟨h, -⟩
          exact absurd h (by simp)
        · rintro ⟨⟨rfl, -⟩, h⟩
          exact absurd List.mem_cons_self h
    · cases before with
      | nil => simp [cutFirstChars, h]
      | cons b bs =>
        simp only [cutFirstChars, h, if_false, Option.map_eq_some_iff, Prod.exists, Prod.mk.injEq,
          List.cons.injEq, List.cons_append, List.mem_cons, not_or]
        constructor
        · rintro ⟨x, y, hxy, ⟨rfl, rfl⟩, rfl⟩
          obtain ⟨h₁, h₂⟩ := ih.1 hxy
          exact ⟨⟨rfl, h₁⟩, fun e => h e.symm, h₂⟩
        · rintro ⟨⟨rfl, h₁⟩, -, h₂⟩
          exact ⟨bs, after, ih.2 ⟨h₁, h₂⟩, ⟨rfl, rfl⟩, rfl⟩

theorem cutLastChars_eq_none_iff {sep : Char} {cs : List Char} :
    cutLastChars sep cs = none ↔ sep ∉ cs := by
  induction cs with
  | nil => simp [cutLastChars]
  | cons c rest ih =>
    cases h : cutLastChars sep rest with
    | some parts =>
      have : sep ∈ rest := by
        by_cases m : sep ∈ rest
        · exact m
        · rw [ih.2 m] at h
          exact absurd h (by simp)
      simp [cutLastChars, h, this]
    | none =>
      by_cases e : c = sep
      · simp [cutLastChars, h, e]
      · simp [cutLastChars, h, e, ih.1 h, Ne.symm e]

theorem cutLastChars_eq_some_iff {sep : Char} {cs before after : List Char} :
    cutLastChars sep cs = some (before, after) ↔ cs = before ++ sep :: after ∧ sep ∉ after := by
  induction cs generalizing before after with
  | nil => simp [cutLastChars]
  | cons c rest ih =>
    cases h : cutLastChars sep rest with
    | some parts =>
      obtain ⟨x, y⟩ := parts
      have split := ih.1 h
      simp only [cutLastChars, h, Option.some.injEq, Prod.mk.injEq]
      constructor
      · rintro ⟨rfl, rfl⟩
        exact ⟨by simp [split.1], split.2⟩
      · rintro ⟨e, n⟩
        cases before with
        | nil =>
          simp only [List.nil_append, List.cons.injEq] at e
          exact absurd (e.2 ▸ split.1 ▸ (by simp : sep ∈ x ++ sep :: y)) n
        | cons b bs =>
          simp only [List.cons_append, List.cons.injEq] at e
          have := ih.2 ⟨e.2, n⟩
          rw [h] at this
          simp only [Option.some.injEq, Prod.mk.injEq] at this
          exact ⟨by simp [e.1, this.1], this.2⟩
    | none =>
      have absent := cutLastChars_eq_none_iff.1 h
      cases before with
      | nil =>
        by_cases e : c = sep
        · subst e
          simp only [cutLastChars, h, if_true, Option.some.injEq, Prod.mk.injEq, true_and,
            List.nil_append, List.cons.injEq]
          constructor
          · rintro rfl
            exact ⟨rfl, absent⟩
          · rintro ⟨rfl, -⟩
            rfl
        · simp [cutLastChars, h, e]
      | cons b bs =>
        simp only [cutLastChars, h, List.cons_append, List.cons.injEq]
        constructor
        · intro e
          split at e <;> simp at e
        · rintro ⟨⟨-, e⟩, -⟩
          exact absurd (e ▸ (by simp : sep ∈ bs ++ sep :: after)) absent

end Text

end ComponentAbi
