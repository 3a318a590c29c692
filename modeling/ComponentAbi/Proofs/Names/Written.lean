import ComponentAbi.PackageName
import ComponentAbi.Proofs.Except

/-!
# Reading names that were written

The written form of a package name reads back as that name (`PackageName.parse_toText`), also with a
version after an `@` (`PackageRef.parse_written`), as long as no segment of the name has a separator
in it.
-/

namespace ComponentAbi

namespace Text

variable {sep c : Char} {s a b : String} {parts : List String}

theorem cutFirst_of_toList (hs : s.toList = a.toList ++ sep :: b.toList) (h : sep ∉ a.toList) :
    cutFirst sep s = some (a, b) := by
  rw [cutFirst, hs, cutFirstChars_eq_some_iff.2 ⟨rfl, h⟩]
  simp

theorem cutFirst_eq_none (h : sep ∉ s.toList) : cutFirst sep s = none := by
  rw [cutFirst, Option.map_eq_none_iff]
  cases hcut : cutFirstChars sep s.toList with
  | none => rfl
  | some parts =>
    refine absurd ?_ h
    rw [(cutFirstChars_eq_some_iff.1 hcut).1]
    simp

theorem cutLast_of_toList (hs : s.toList = a.toList ++ sep :: b.toList) (h : sep ∉ b.toList) :
    cutLast sep s = some (a, b) := by
  rw [cutLast, hs, cutLastChars_eq_some_iff.2 ⟨rfl, h⟩]
  simp

theorem cutLast_eq_none (h : sep ∉ s.toList) : cutLast sep s = none := by
  rw [cutLast, cutLastChars_eq_none_iff.2 h]
  rfl

/-- Pieces that are written with a separator between them are found again. -/
theorem pieces_of_toList (hparts : parts ≠ []) (hplain : ∀ part ∈ parts, sep ∉ part.toList)
    (hs : s.toList = [sep].intercalate (parts.map String.toList)) : pieces sep s = parts := by
  rw [pieces, hs, List.splitOn_intercalate sep (by simpa using hplain) (by simpa using hparts)]
  simp [Function.comp_def]

/-- Text that is written in pieces has the characters of the pieces and the separator. -/
theorem eq_or_mem_of_mem_intercalate
    (h : c ∈ [sep].intercalate (parts.map String.toList)) :
    c = sep ∨ ∃ part ∈ parts, c ∈ part.toList := by
  induction parts with
  | nil => simp [List.intercalate] at h
  | cons part rest ih =>
    by_cases hrest : rest = []
    · subst hrest
      exact Or.inr ⟨part, List.mem_cons_self, by simpa [List.intercalate_singleton] using h⟩
    · rw [List.map_cons, List.intercalate_cons_of_ne_nil (by simpa using hrest)] at h
      simp only [List.append_assoc, List.cons_append, List.nil_append, List.mem_append,
        List.mem_cons] at h
      rcases h with h | h | h
      · exact Or.inr ⟨part, List.mem_cons_self, h⟩
      · exact Or.inl h
      · rcases ih h with h | ⟨p, hp, hc⟩
        · exact Or.inl h
        · exact Or.inr ⟨p, List.mem_cons_of_mem _ hp, hc⟩

theorem intercalate_ne_nil (hparts : parts ≠ []) (hpart : ∀ part ∈ parts, part ≠ "") :
    [sep].intercalate (parts.map String.toList) ≠ [] := by
  obtain ⟨part, rest, rfl⟩ := List.exists_cons_of_ne_nil hparts
  have hne : part.toList ≠ [] := by
    simpa using hpart part List.mem_cons_self
  by_cases hrest : rest = []
  · simpa [hrest, List.intercalate_singleton] using hne
  · rw [List.map_cons, List.intercalate_cons_of_ne_nil (by simpa using hrest)]
    simp

theorem intercalate_concat {α : Type} {sep last : List α} {front : List (List α)}
    (h : front ≠ []) :
    sep.intercalate (front ++ [last]) = sep.intercalate front ++ sep ++ last := by
  induction front with
  | nil => exact absurd rfl h
  | cons first rest ih =>
    by_cases hrest : rest = []
    · simp [hrest, List.intercalate_singleton, List.intercalate_cons_cons]
    · rw [List.cons_append, List.intercalate_cons_of_ne_nil (by simp), ih hrest,
        List.intercalate_cons_of_ne_nil hrest]
      simp

end Text

namespace PackageName

variable {n : PackageName} {c : Char} {part : String}

/-- The segments of the name can be told apart in its written form. -/
structure Readable (n : PackageName) : Prop where
  /-- There is a path. -/
  path : n.path ≠ []
  /-- Namespaces are not empty, and have no separator in them. -/
  namespaces : ∀ part ∈ n.namespaces, part ≠ "" ∧ ':' ∉ part.toList
  /-- Path segments are not empty, and have no separator in them. -/
  segments : ∀ part ∈ n.path, part ≠ "" ∧ ':' ∉ part.toList ∧ '/' ∉ part.toList

theorem toText_push (hpath : n.path ≠ []) : (n.push part).toText = n.toText ++ "/" ++ part := by
  have hjoin : String.intercalate "/" (n.path ++ [part]) =
      String.intercalate "/" n.path ++ "/" ++ part := by
    rw [← String.toList_inj]
    simp only [String.toList_append, String.toList_intercalate, List.map_append, List.map_cons,
      List.map_nil]
    exact Text.intercalate_concat (by simpa using hpath)
  rw [toText, toText]
  simp only [push, hjoin]
  split <;> simp [String.append_assoc]

/-- A character of the written form that is no separator belongs to a segment. -/
theorem exists_mem_of_mem_toText (h : c ∈ n.toText.toList) :
    c = ':' ∨ c = '/' ∨ ∃ part ∈ n.namespaces ++ n.path, c ∈ part.toList := by
  have hpath (h : c ∈ (String.intercalate "/" n.path).toList) :
      c = '/' ∨ ∃ part ∈ n.namespaces ++ n.path, c ∈ part.toList := by
    rw [String.toList_intercalate] at h
    rcases Text.eq_or_mem_of_mem_intercalate h with h | ⟨part, hpart, hc⟩
    · exact Or.inl h
    · exact Or.inr ⟨part, List.mem_append_right _ hpart, hc⟩
  rw [toText] at h
  split at h
  · exact Or.inr (hpath h)
  · simp only [String.toList_append, List.append_assoc, List.mem_append] at h
    rcases h with h | h | h
    · rw [String.toList_intercalate] at h
      rcases Text.eq_or_mem_of_mem_intercalate h with h | ⟨part, hpart, hc⟩
      · exact Or.inl h
      · exact Or.inr (Or.inr ⟨part, List.mem_append_left _ hpart, hc⟩)
    · exact Or.inl (by simpa using h)
    · exact Or.inr (hpath h)

/-- Reading a name without a namespace. -/
theorem parse_path {s : String} (hcolon : ':' ∉ s.toList) (hs : s ≠ "")
    (hpath : "" ∉ Text.pieces '/' s) : parse s = .ok { path := Text.pieces '/' s } := by
  rw [parse, Text.cutLast_eq_none hcolon]
  simp [hs, hpath]
  rfl

/-- Reading a name, from the parts around its last colon. -/
theorem parse_qualified {s front tail : String} (hcut : Text.cutLast ':' s = some (front, tail))
    (hs : s ≠ "") (htail : tail ≠ "") (hns : "" ∉ Text.pieces ':' front)
    (hpath : "" ∉ Text.pieces '/' tail) :
    parse s = .ok { namespaces := Text.pieces ':' front, path := Text.pieces '/' tail } := by
  rw [parse, hcut]
  simp [hs, htail, hns, hpath]
  rfl

/-- The written form of a name reads back as that name. -/
theorem parse_toText (h : n.Readable) : parse n.toText = .ok n := by
  have hslash : (String.intercalate "/" n.path).toList =
      ['/'].intercalate (n.path.map String.toList) := String.toList_intercalate
  have hpieces : Text.pieces '/' (String.intercalate "/" n.path) = n.path :=
    Text.pieces_of_toList h.path (fun part hp => (h.segments part hp).2.2) hslash
  have hne : String.intercalate "/" n.path ≠ "" := by
    intro he
    rw [he] at hslash
    exact Text.intercalate_ne_nil h.path (fun part hp => (h.segments part hp).1) hslash.symm
  have hsegments : "" ∉ Text.pieces '/' (String.intercalate "/" n.path) := by
    rw [hpieces]
    exact fun hm => (h.segments _ hm).1 rfl
  have hcolon : ':' ∉ (String.intercalate "/" n.path).toList := by
    intro hm
    rw [hslash] at hm
    rcases Text.eq_or_mem_of_mem_intercalate hm with hm | ⟨part, hp, hm⟩
    · exact absurd hm (by decide)
    · exact (h.segments part hp).2.1 hm
  have hns : "" ∉ n.namespaces := fun hm => (h.namespaces _ hm).1 rfl
  obtain ⟨namespaces, path⟩ := n
  by_cases hnil : namespaces = []
  · subst hnil
    have htext : toText { path } = String.intercalate "/" path := rfl
    rw [htext, parse_path hcolon hne hsegments, hpieces]
  · have htext : toText { namespaces, path } =
        String.intercalate ":" namespaces ++ ":" ++ String.intercalate "/" path := by
      simp [toText, hnil]
    have hcut : Text.cutLast ':' (toText { namespaces, path }) =
        some (String.intercalate ":" namespaces, String.intercalate "/" path) :=
      Text.cutLast_of_toList (by simp [htext]) hcolon
    have hfront : Text.pieces ':' (String.intercalate ":" namespaces) = namespaces :=
      Text.pieces_of_toList hnil (fun part hp => (h.namespaces part hp).2)
        String.toList_intercalate
    have htextne : toText { namespaces, path } ≠ "" := by
      rw [htext]
      simp
    rw [parse_qualified hcut htextne hne (by rwa [hfront]) hsegments, hfront, hpieces]

end PackageName

namespace PackageRef

variable {n : PackageName} {version : Version} {written : String}

/-- A written name with a version text after an `@` reads back as the name with the version. -/
theorem parse_written (hname : n.Readable) (hat : '@' ∉ n.toText.toList)
    (hversion : Version.parse written = .ok version) :
    parse (n.toText ++ "@" ++ written) = .ok { name := n, version := some version } := by
  have hcut : Text.cutFirst '@' (n.toText ++ "@" ++ written) = some (n.toText, written) :=
    Text.cutFirst_of_toList (by simp) hat
  rw [parse, hcut]
  simp only [hversion, PackageName.parse_toText hname]
  rfl

/-- A written name without a version reads back as the name alone. -/
theorem parse_toText_name (hname : n.Readable) (hat : '@' ∉ n.toText.toList) :
    parse n.toText = .ok { name := n } := by
  rw [parse, Text.cutFirst_eq_none hat]
  simp only [PackageName.parse_toText hname]
  rfl

end PackageRef

end ComponentAbi
