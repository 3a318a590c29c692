import ComponentAbi.Proofs.Names.Versions

/-!
# Different references are written differently

References without separators in their segments that are written alike are equal
(`PackageRef.eq_of_toText_eq`). References that were read are of this kind
(`PackageRef.plain_of_parse`), as is seen from what reading says of a name
(`PackageName.exists_tail_of_parse`) and of a reference (`PackageRef.exists_texts_of_parse`).
-/

namespace ComponentAbi

namespace Text

variable {sep c : Char} {s : String} {part : String}

theorem mem_splitOn {cs piece : List Char} (h : piece ∈ cs.splitOn sep) :
    sep ∉ piece ∧ piece ⊆ cs := by
  induction cs generalizing piece with
  | nil =>
    rw [List.splitOn, List.splitOnP_nil, List.mem_singleton] at h
    simp [h]
  | cons c rest ih =>
    rw [List.splitOn, List.splitOnP_cons_eq_if_modifyHead] at h
    obtain ⟨first, more, hsplit⟩ := List.exists_cons_of_ne_nil (List.splitOn_ne_nil sep rest)
    have hmore : ∀ piece ∈ first :: more, sep ∉ piece ∧ piece ⊆ rest := fun piece hp =>
      ih (hsplit ▸ hp)
    rw [List.splitOn] at hsplit
    rw [hsplit] at h
    by_cases hc : c = sep
    · simp only [hc, beq_self_eq_true, if_true, List.mem_cons] at h
      rcases h with rfl | hp
      · simp
      · rw [← List.mem_cons] at hp
        exact ⟨(hmore piece hp).1, fun x hx => List.mem_cons_of_mem _ ((hmore piece hp).2 hx)⟩
    · simp only [beq_iff_eq, hc, if_false, List.modifyHead_cons, List.mem_cons] at h
      rcases h with rfl | hp
      · obtain ⟨hsep, hsub⟩ := hmore first List.mem_cons_self
        exact ⟨by simp [hsep, Ne.symm hc], List.cons_subset_cons c hsub⟩
      · obtain ⟨hsep, hsub⟩ := hmore piece (List.mem_cons_of_mem _ hp)
        exact ⟨hsep, fun x hx => List.mem_cons_of_mem _ (hsub hx)⟩

/-- A piece has no separator in it, and only characters of the text. -/
theorem mem_pieces (h : part ∈ pieces sep s) : sep ∉ part.toList ∧ part.toList ⊆ s.toList := by
  obtain ⟨piece, hpiece, rfl⟩ := List.mem_map.1 h
  simpa using mem_splitOn hpiece

theorem toList_of_cutFirst {a b : String} (h : cutFirst sep s = some (a, b)) :
    s.toList = a.toList ++ sep :: b.toList ∧ sep ∉ a.toList := by
  obtain ⟨parts, hparts, heq⟩ := Option.map_eq_some_iff.1 h
  cases heq
  simpa using cutFirstChars_eq_some_iff.1 hparts

theorem toList_of_cutLast {a b : String} (h : cutLast sep s = some (a, b)) :
    s.toList = a.toList ++ sep :: b.toList ∧ sep ∉ b.toList := by
  obtain ⟨parts, hparts, heq⟩ := Option.map_eq_some_iff.1 h
  cases heq
  simpa using cutLastChars_eq_some_iff.1 hparts

theorem notMem_of_cutFirst (h : cutFirst sep s = none) : sep ∉ s.toList := by
  intro hm
  obtain ⟨front, back, hs, hfront⟩ := List.eq_append_cons_of_mem hm
  have hcut : cutFirst sep s = some (String.ofList front, String.ofList back) :=
    cutFirst_of_toList (by simpa using hs) (by simpa using hfront)
  rw [h] at hcut
  cases hcut

theorem notMem_of_cutLast (h : cutLast sep s = none) : sep ∉ s.toList :=
  cutLastChars_eq_none_iff.1 (Option.map_eq_none_iff.1 h)

theorem pieces_ne_nil : pieces sep s ≠ [] := by
  simp [pieces]

/-- A text is known by its pieces. -/
theorem pieces_inj {t : String} (h : pieces sep s = pieces sep t) : s = t := by
  have hsplit : s.toList.splitOn sep = t.toList.splitOn sep :=
    (List.map_inj_right fun _ _ => String.ofList_inj.1).1 h
  rw [← String.toList_inj]
  calc
    s.toList = [sep].intercalate (s.toList.splitOn sep) := (List.intercalate_splitOn sep).symm
    _ = [sep].intercalate (t.toList.splitOn sep) := by rw [hsplit]
    _ = t.toList := List.intercalate_splitOn sep

end Text

/-- Build metadata starts at the first plus sign, so there is none before. -/
theorem Version.plus_notMem_of_parse {s : String} {v : Version} (h : Version.parse s = .ok v) :
    '+' ∉ v.pre.toList := by
  have hfirst : '+' ∉ ((Text.cutFirst '+' s).getD (s, "")).1.toList := by
    cases hcut : Text.cutFirst '+' s with
    | none => exact Text.notMem_of_cutFirst hcut
    | some parts => exact (Text.toList_of_cutFirst (a := parts.1) (b := parts.2) hcut).2
  have hsecond (rest : String) :
      ((Text.cutFirst '-' rest).getD (rest, "")).2.toList ⊆ rest.toList := by
    cases hcut : Text.cutFirst '-' rest with
    | none => simp
    | some parts =>
      rw [(Text.toList_of_cutFirst (a := parts.1) (b := parts.2) hcut).1]
      exact fun c hc => List.mem_append_right _ (List.mem_cons_of_mem _ hc)
  rw [parse] at h
  generalize (Text.cutFirst '+' s).getD (s, "") = first at h hfirst
  have hpre := hsecond first.1
  simp only at h
  generalize (Text.cutFirst '-' first.1).getD (first.1, "") = second at h hpre
  split at h
  · cases h
  · obtain ⟨major, -, h⟩ := Except.bind_eq_ok.1 h
    obtain ⟨minor, -, h⟩ := Except.bind_eq_ok.1 h
    obtain ⟨patch, -, h⟩ := Except.bind_eq_ok.1 h
    split at h
    · cases h
    · cases h
      exact fun hm => hfirst (hpre hm)

namespace PackageName

variable {m n : PackageName} {part : String}

/-- No separator of package references is in a segment of the name. -/
structure Plain (n : PackageName) : Prop where
  /-- There is a path. -/
  path : n.path ≠ []
  /-- Namespaces have no separators in them. -/
  namespaces : ∀ part ∈ n.namespaces, ':' ∉ part.toList ∧ '@' ∉ part.toList
  /-- Path segments have no separators in them. -/
  segments : ∀ part ∈ n.path, ':' ∉ part.toList ∧ '@' ∉ part.toList ∧ '/' ∉ part.toList

theorem Plain.push (h : n.Plain)
    (hpart : ':' ∉ part.toList ∧ '@' ∉ part.toList ∧ '/' ∉ part.toList) : (n.push part).Plain where
  path := by simp [PackageName.push]
  namespaces := h.namespaces
  segments p hp := by
    rcases List.mem_append.1 hp with hp | hp
    · exact h.segments p hp
    · rwa [List.mem_singleton.1 hp]

theorem Plain.at_notMem (h : n.Plain) : '@' ∉ n.toText.toList := by
  intro hm
  rcases exists_mem_of_mem_toText hm with hc | hc | ⟨part, hp, hc⟩
  · exact absurd hc (by decide)
  · exact absurd hc (by decide)
  · rcases List.mem_append.1 hp with hp | hp
    · exact (h.namespaces part hp).2 hc
    · exact (h.segments part hp).2.1 hc

/-- The last colon of a name in writing ends its namespaces. -/
theorem Plain.cutLast_toText (h : n.Plain) : Text.cutLast ':' n.toText =
    if n.namespaces = [] then none
    else some (String.intercalate ":" n.namespaces, String.intercalate "/" n.path) := by
  have hcolon : ':' ∉ (String.intercalate "/" n.path).toList := by
    intro hm
    rw [String.toList_intercalate] at hm
    rcases Text.eq_or_mem_of_mem_intercalate hm with hm | ⟨part, hp, hm⟩
    · exact absurd hm (by decide)
    · exact (h.segments part hp).1 hm
  by_cases hnil : n.namespaces = []
  · simp [toText, hnil, Text.cutLast_eq_none hcolon]
  · rw [if_neg hnil]
    exact Text.cutLast_of_toList (by simp [toText, hnil]) hcolon

theorem Plain.pieces_path (h : n.Plain) :
    Text.pieces '/' (String.intercalate "/" n.path) = n.path :=
  Text.pieces_of_toList h.path (fun part hp => (h.segments part hp).2.2) String.toList_intercalate

theorem Plain.pieces_namespaces (h : n.Plain) (hne : n.namespaces ≠ []) :
    Text.pieces ':' (String.intercalate ":" n.namespaces) = n.namespaces :=
  Text.pieces_of_toList hne (fun part hp => (h.namespaces part hp).1) String.toList_intercalate

/-- Names that are written alike are equal. -/
theorem eq_of_toText_eq (hm : m.Plain) (hn : n.Plain) (h : m.toText = n.toText) : m = n := by
  have hcut := hm.cutLast_toText
  rw [h, hn.cutLast_toText] at hcut
  obtain ⟨hnamespaces, hpath⟩ : m.namespaces = n.namespaces ∧
      String.intercalate "/" m.path = String.intercalate "/" n.path := by
    by_cases hms : m.namespaces = [] <;> by_cases hns : n.namespaces = []
    · exact ⟨by rw [hms, hns], by simpa [toText, hms, hns] using h⟩
    · simp [hms, hns] at hcut
    · simp [hms, hns] at hcut
    · simp only [hms, hns, if_false, Option.some.injEq, Prod.mk.injEq] at hcut
      exact ⟨by rw [← hm.pieces_namespaces hms, ← hcut.1, hn.pieces_namespaces hns], hcut.2.symm⟩
  have hsegments : m.path = n.path := by rw [← hm.pieces_path, hpath, hn.pieces_path]
  obtain ⟨ms, mp⟩ := m
  obtain ⟨ns, np⟩ := n
  rw [show ms = ns from hnamespaces, show mp = np from hsegments]

/-- What reading says of a name: its path is what stands between the slashes after the last colon,
its namespaces were pieces of the text between colons, and none of its segments is empty. -/
theorem exists_tail_of_parse {s : String} (h : parse s = .ok n) : ∃ tail : String,
    n.path = Text.pieces '/' tail ∧ ':' ∉ tail.toList ∧ tail.toList ⊆ s.toList ∧
      (∀ part ∈ n.namespaces, ':' ∉ part.toList ∧ part.toList ⊆ s.toList) ∧
      "" ∉ n.namespaces ∧ "" ∉ n.path := by
  have hfull {namespaces path : List String}
      (h : ¬(namespaces.any String.isEmpty || path.any String.isEmpty) = true) :
      "" ∉ namespaces ∧ "" ∉ path := by
    simpa using h
  rw [parse] at h
  split at h
  · cases h
  · -- The parts around the last colon; without one, there are no namespaces.
    cases hcut : Text.cutLast ':' s with
    | none =>
      rw [hcut] at h
      simp only at h
      split at h
      · cases h
      · split at h
        · cases h
        · rename_i hsegments
          cases h
          exact ⟨s, rfl, Text.notMem_of_cutLast hcut, fun _ hc => hc, by simp, hfull hsegments⟩
    | some parts =>
      obtain ⟨front, back⟩ := parts
      obtain ⟨hs, hcolon⟩ := Text.toList_of_cutLast hcut
      rw [hcut] at h
      simp only at h
      split at h
      · cases h
      · split at h
        · cases h
        · rename_i hsegments
          cases h
          refine ⟨back, rfl, hcolon, ?_, fun part hp => ?_, hfull hsegments⟩
          · rw [hs]
            exact fun c hc => List.mem_append_right _ (List.mem_cons_of_mem _ hc)
          · obtain ⟨hcolon, hsub⟩ := Text.mem_pieces hp
            rw [hs]
            exact ⟨hcolon, fun c hc => List.mem_append_left _ (hsub hc)⟩

/-- A name that was read has no separators in its segments. -/
theorem plain_of_parse {s : String} (h : parse s = .ok n) (hat : '@' ∉ s.toList) : n.Plain := by
  obtain ⟨tail, hpath, hcolon, htail, hns, -⟩ := exists_tail_of_parse h
  refine ⟨hpath ▸ Text.pieces_ne_nil, fun part hp => ?_, fun part hp => ?_⟩
  · exact ⟨(hns part hp).1, fun h => hat ((hns part hp).2 h)⟩
  · obtain ⟨hslash, hsub⟩ := Text.mem_pieces (hpath ▸ hp)
    exact ⟨fun h => hcolon (hsub h), fun h => hat (htail (hsub h)), hslash⟩

/-- A name that was read can be read again from its written form. -/
theorem readable_of_parse {s : String} (h : parse s = .ok n) : n.Readable := by
  obtain ⟨tail, hpath, hcolon, -, hns, hnamespaces, hsegments⟩ := exists_tail_of_parse h
  refine ⟨hpath ▸ Text.pieces_ne_nil, fun part hp => ?_, fun part hp => ?_⟩
  · exact ⟨fun he => hnamespaces (he ▸ hp), (hns part hp).1⟩
  · obtain ⟨hslash, hsub⟩ := Text.mem_pieces (hpath ▸ hp)
    exact ⟨fun he => hsegments (he ▸ hp), fun h => hcolon (hsub h), hslash⟩

end PackageName

namespace PackageRef

variable {r r' : PackageRef}

/-- No separator is in a segment of the name or, where it would be misread, in the version. -/
structure Plain (r : PackageRef) : Prop where
  /-- The name is plain. -/
  name : r.name.Plain
  /-- The pre-release does not have the mark of build metadata in it. -/
  version : ∀ v ∈ r.version, '+' ∉ v.pre.toList

theorem Plain.push {part : String} (h : r.Plain)
    (hpart : ':' ∉ part.toList ∧ '@' ∉ part.toList ∧ '/' ∉ part.toList) : (r.push part).Plain where
  name := h.name.push hpart
  version := h.version

theorem Plain.cutFirst_toText (h : r.Plain) : Text.cutFirst '@' r.toText =
    r.version.map fun v => (r.name.toText, v.toText) := by
  obtain ⟨name, version⟩ := r
  cases version with
  | none => exact Text.cutFirst_eq_none h.name.at_notMem
  | some v => exact Text.cutFirst_of_toList (by simp [toText]) h.name.at_notMem

/-- References that are written alike are equal. -/
theorem eq_of_toText_eq (h : r.Plain) (h' : r'.Plain) (htext : r.toText = r'.toText) : r = r' := by
  have hcut := h.cutFirst_toText
  rw [htext, h'.cutFirst_toText] at hcut
  obtain ⟨name, version⟩ := r
  obtain ⟨name', version'⟩ := r'
  have hname : name = name' := by
    refine PackageName.eq_of_toText_eq h.name h'.name ?_
    cases version <;> cases version' <;> simp_all [toText]
  have hversion : version = version' := by
    cases version with
    | none =>
      cases version' with
      | none => rfl
      | some _ => simp at hcut
    | some v =>
      cases version' with
      | none => simp at hcut
      | some v' =>
        simp only [Option.map_some, Option.some.injEq, Prod.mk.injEq] at hcut
        have hv := Version.parse_toText (h.version v rfl)
        rw [← hcut.2, Version.parse_toText (h'.version v' rfl)] at hv
        rw [Except.ok.inj hv]
  rw [hname, hversion]

/-- What reading says of a reference: its name was read from a text without the mark of a version,
and its version, if there is one, from another text. -/
theorem exists_texts_of_parse {s : String} (h : parse s = .ok r) :
    (∃ text, PackageName.parse text = .ok r.name ∧ '@' ∉ text.toList) ∧
      ∀ v ∈ r.version, ∃ text, Version.parse text = .ok v := by
  rw [parse] at h
  cases hcut : Text.cutFirst '@' s with
  | none =>
    rw [hcut] at h
    obtain ⟨name, hname, hr⟩ := Except.bind_eq_ok.1 h
    cases hr
    exact ⟨⟨s, hname, Text.notMem_of_cutFirst hcut⟩, by simp⟩
  | some parts =>
    obtain ⟨front, back⟩ := parts
    rw [hcut] at h
    obtain ⟨version, hversion, h⟩ := Except.bind_eq_ok.1 h
    obtain ⟨name, hname, hr⟩ := Except.bind_eq_ok.1 h
    cases hr
    refine ⟨⟨front, hname, (Text.toList_of_cutFirst hcut).2⟩, fun v hv => ?_⟩
    cases hv
    exact ⟨back, Except.mapError_eq_ok.1 hversion⟩

/-- A reference that was read has no separators in its segments. -/
theorem plain_of_parse {s : String} (h : parse s = .ok r) : r.Plain := by
  obtain ⟨⟨text, hname, hat⟩, hversion⟩ := exists_texts_of_parse h
  refine ⟨PackageName.plain_of_parse hname hat, fun v hv => ?_⟩
  obtain ⟨written, hwritten⟩ := hversion v hv
  exact Version.plus_notMem_of_parse hwritten

end PackageRef

end ComponentAbi
