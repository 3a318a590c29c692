import ComponentAbi.Proofs.Loading.Mirror
import ComponentAbi.Proofs.Loading.Steps

/-!
# A project is the sum of its parts

The items that a document declares for one package become a `Part`: contents and an arena of their
own, whatever was loaded before. A group that loads adds its parts one after the other
(`LoadM.gives_addGroup`).
-/

namespace ComponentAbi

/-- Items of one package. -/
structure PackageBlock where
  /-- The package. -/
  package : PackageRef
  /-- The items. -/
  items : List Item

/-- What items of one package become when nothing else is there. -/
structure Part where
  /-- The package. -/
  package : PackageRef
  /-- The contents that the items declare. -/
  contents : PackageContents
  /-- The type nodes. -/
  arena : TypeArena

/-- The items become the part. -/
structure PackageBlock.Builds (b : PackageBlock) (part : Part) : Prop where
  /-- They belong to the same package. -/
  package : part.package = b.package
  /-- Loading the items on their own gives the part. -/
  gives : (LoadM.packageItems b.package b.items).Gives {} part.contents { arena := part.arena }

namespace Project

/-- The project with a part added. -/
def add (p : Project) (part : Part) : Project :=
  { p.above (TypeId.shift p.arena.size) part.arena with
    store := p.store.insert part.package (part.contents.rename (TypeId.shift p.arena.size)) }

end Project

/-! ### Parts stand alone -/

section Closed

variable {b : PackageBlock} {part : Part} {ρ : TypeId → TypeId} {p q : Project}

/-- The items of a block do above any project what they do alone. -/
theorem PackageBlock.run_eq {answer : Except LoadError PackageContents} {alone : Project}
    (b : PackageBlock)
    (halone : (LoadM.packageItems b.package b.items).run.run {} = (answer, alone))
    (hρ : ∀ i < alone.arena.size, ρ ⟨i⟩ = ⟨p.arena.size + i⟩) :
    (LoadM.packageItems b.package b.items).run.run p =
      (answer.map (PackageContents.rename ρ), p.above ρ alone.arena) := by
  have hmirrors : LoadM.Mirrors 0 p ρ _ _ _ := LoadM.mirrors_packageItems b.package b.items
  obtain ⟨-, h⟩ := hmirrors {} (Nat.zero_le _)
  rw [halone] at h
  rw [← h hρ, Project.above_empty]

/-- A part has no ids but those of its own nodes, so only what these are renamed to matters. -/
theorem PackageBlock.Builds.rename_eq (h : b.Builds part) {k : Nat}
    (hρ : ∀ i < part.arena.size, ρ ⟨i⟩ = ⟨k + i⟩) :
    part.contents.rename ρ = part.contents.rename (TypeId.shift k) ∧
      part.arena.nodes.map (TypeNode.rename ρ) =
        part.arena.nodes.map (TypeNode.rename (TypeId.shift k)) := by
  let base : Project := { arena := ⟨Array.replicate k .string⟩ }
  have hk : base.arena.size = k := by simp [base, TypeArena.size]
  have hone := PackageBlock.run_eq (p := base) b h.gives (by rwa [hk])
  have hother := PackageBlock.run_eq (p := base) (ρ := TypeId.shift k) b h.gives fun i _ => by
    rw [hk]
    rfl
  rw [hone] at hother
  obtain ⟨hcontents, hproject⟩ := Prod.mk.inj hother
  have hnodes := congrArg (·.arena.nodes) hproject
  exact ⟨Except.ok.inj hcontents, (Array.append_right_inj _).1 hnodes⟩

theorem LoadM.gives_insert {package : PackageRef} {contents : PackageContents} {u : Unit} :
    (insert package contents).Gives p u q ↔
      q = { p with store := p.store.insert package contents } := by
  constructor
  · intro h
    cases h
    rfl
  · rintro rfl
    rfl

/-- Loading a block adds its part. -/
theorem PackageBlock.gives_iff {u : Unit} :
    (do LoadM.insert b.package (← LoadM.packageItems b.package b.items)).Gives p u q ↔
      ∃ part, b.Builds part ∧ q = p.add part := by
  cases halone : (LoadM.packageItems b.package b.items).run.run {} with | mk answer alone
  have hrun := PackageBlock.run_eq (p := p) (ρ := TypeId.shift p.arena.size) b halone fun i _ => rfl
  have hempty :=
    PackageBlock.run_eq (p := {}) (ρ := id) b halone fun i _ => by simp [TypeArena.size]
  rw [LoadM.gives_bind]
  constructor
  · rintro ⟨contents, mid, hgives, hinsert⟩
    rw [LoadM.Gives, hrun] at hgives
    obtain ⟨hanswer, rfl⟩ := Prod.mk.inj hgives
    cases answer with
    | error e => cases hanswer
    | ok c =>
      cases hanswer
      have hstore : alone.store = {} := by
        rw [halone] at hempty
        rw [(Prod.mk.inj hempty).2]
        rfl
      refine ⟨⟨b.package, c, alone.arena⟩, ⟨rfl, ?_⟩, LoadM.gives_insert.1 hinsert⟩
      rw [LoadM.Gives, halone, ← hstore]
  · rintro ⟨part, hpart, rfl⟩
    have hgives := hpart.gives
    rw [LoadM.Gives, halone] at hgives
    cases hgives
    refine ⟨_, _, hrun, LoadM.gives_insert.2 ?_⟩
    rw [Project.add, hpart.package]
    rfl

end Closed

/-! ### The blocks of a group -/

namespace LoadM

variable {p q : Project}

theorem gives_forM_nil {ι : Type} {f : ι → LoadM Unit} {u : Unit} :
    ([].forM f).Gives p u q ↔ q = p := by
  rw [List.forM_eq_forM, List.forM_nil, gives_pure]
  simp

theorem gives_forM_cons {ι : Type} {f : ι → LoadM Unit} {x : ι} {xs : List ι} {u : Unit} :
    ((x :: xs).forM f).Gives p u q ↔ ∃ mid, (f x).Gives p () mid ∧ (xs.forM f).Gives mid u q := by
  rw [List.forM_eq_forM, List.forM_cons, gives_bind]
  exact ⟨fun ⟨_, mid, hx, hxs⟩ => ⟨mid, hx, hxs⟩, fun ⟨mid, hx, hxs⟩ => ⟨(), mid, hx, hxs⟩⟩

end LoadM

/-- The block of a package that is declared inside a document. -/
def NestedPackage.blocks (nested : NestedPackage) : Except LoadError (List PackageBlock) := do
  let package ← (PackageRef.parse nested.package).mapError LoadError.name
  return [{ package, items := nested.items }]

/-- The block of the items of a document whose group belongs to `package`. -/
def SourceFile.ownBlocks (package : Option PackageRef) (file : SourceFile) :
    Except LoadError (List PackageBlock) :=
  if file.document.items.isEmpty then .ok []
  else match package with
    | none => .error (.missingPackage file.path)
    | some package => .ok [{ package, items := file.document.items }]

/-- The blocks of a document whose group belongs to `package`. -/
def SourceFile.blocks (package : Option PackageRef) (file : SourceFile) :
    Except LoadError (List PackageBlock) := do
  let own ← file.ownBlocks package
  let nested ← file.document.packages.mapM NestedPackage.blocks
  return own ++ nested.flatten

/-- The blocks of all documents of a group. -/
def SourceGroup.blocks (g : SourceGroup) : Except LoadError (List PackageBlock) := do
  let package ← g.package
  let blocks ← g.files.mapM (SourceFile.blocks package)
  return blocks.flatten

namespace Project

/-- Some blocks can be loaded one after the other, and lead from the first project to the second. -/
def Adds (blocks : List PackageBlock) (p q : Project) : Prop :=
  ∃ parts, List.Forall₂ PackageBlock.Builds blocks parts ∧ q = parts.foldl add p

variable {p q : Project}

theorem adds_nil : Adds [] p q ↔ q = p := by
  simp [Adds]

theorem adds_cons {b : PackageBlock} {blocks : List PackageBlock} :
    Adds (b :: blocks) p q ↔ ∃ part, b.Builds part ∧ Adds blocks (p.add part) q := by
  constructor
  · rintro ⟨parts, hparts, rfl⟩
    obtain ⟨hpart, hrest⟩ := hparts
    exact ⟨_, ‹_›, _, ‹_›, rfl⟩
  · rintro ⟨part, hpart, parts, hparts, rfl⟩
    exact ⟨part :: parts, .cons hpart hparts, rfl⟩

theorem adds_append {front back : List PackageBlock} :
    Adds (front ++ back) p q ↔ ∃ mid, Adds front p mid ∧ Adds back mid q := by
  induction front generalizing p with
  | nil => simp [adds_nil]
  | cons b rest ih =>
    simp only [List.cons_append, adds_cons, ih]
    constructor
    · rintro ⟨part, hpart, mid, hrest, hback⟩
      exact ⟨mid, ⟨part, hpart, hrest⟩, hback⟩
    · rintro ⟨mid, ⟨part, hpart, hrest⟩, hback⟩
      exact ⟨part, hpart, mid, hrest, hback⟩

end Project

namespace LoadM

variable {p q : Project} {u : Unit}

/-- Where every step adds some blocks, all steps add the blocks of all. -/
theorem gives_forM {ι : Type} {f : ι → LoadM Unit}
    {blocks : ι → Except LoadError (List PackageBlock)}
    (h : ∀ x p q, (f x).Gives p () q ↔ ∃ bs, blocks x = .ok bs ∧ Project.Adds bs p q)
    {xs : List ι} :
    (xs.forM f).Gives p u q ↔ ∃ bss, xs.mapM blocks = .ok bss ∧ Project.Adds bss.flatten p q := by
  induction xs generalizing p with
  | nil =>
    rw [gives_forM_nil]
    refine ⟨fun hq => ⟨[], rfl, Project.adds_nil.2 hq⟩, ?_⟩
    rintro ⟨bss, hbss, hadds⟩
    cases hbss
    exact Project.adds_nil.1 hadds
  | cons x rest ih =>
    rw [gives_forM_cons]
    constructor
    · rintro ⟨mid, hx, hrest⟩
      obtain ⟨bs, hbs, hfirst⟩ := (h x p mid).1 hx
      obtain ⟨bss, hbss, hmore⟩ := ih.1 hrest
      exact ⟨bs :: bss, Except.mapM_cons_eq_ok.2 ⟨bs, bss, hbs, hbss, rfl⟩,
        Project.adds_append.2 ⟨mid, hfirst, hmore⟩⟩
    · rintro ⟨_, hall, hadds⟩
      obtain ⟨bs, bss, hbs, hbss, rfl⟩ := Except.mapM_cons_eq_ok.1 hall
      obtain ⟨mid, hfirst, hmore⟩ := Project.adds_append.1 hadds
      exact ⟨mid, (h x p mid).2 ⟨bs, hbs, hfirst⟩, ih.2 ⟨bss, hbss, hmore⟩⟩

/-- Loading the items of a package adds their part. -/
theorem gives_block {package : PackageRef} {items : List Item} :
    (do insert package (← packageItems package items)).Gives p u q ↔
      Project.Adds [{ package, items }] p q := by
  rw [PackageBlock.gives_iff (b := { package, items }), Project.adds_cons]
  simp [Project.adds_nil]

/-- Adds a package that is declared inside a document. -/
def addNested (nested : NestedPackage) : LoadM Unit := do
  let package ← liftM ((PackageRef.parse nested.package).mapError LoadError.name)
  insert package (← packageItems package nested.items)

/-- Adds the items of a document that belong to the package of its group. -/
def addOwn (package : Option PackageRef) (file : SourceFile) : LoadM Unit :=
  if file.document.items.isEmpty then return
  else match package with
    | none => throw (.missingPackage file.path)
    | some package => do insert package (← packageItems package file.document.items)

theorem addFile_eq (package : Option PackageRef) (file : SourceFile) :
    addFile package file = (do addOwn package file; file.document.packages.forM addNested) := by
  unfold addFile addOwn
  by_cases hitems : file.document.items.isEmpty
  · simp only [hitems]
    rfl
  · cases package with
    | none => simp [hitems]
    | some package =>
      simp [hitems]
      rfl

theorem gives_addNested (nested : NestedPackage) (p q : Project) :
    (addNested nested).Gives p () q ↔ ∃ bs, nested.blocks = .ok bs ∧ Project.Adds bs p q := by
  rw [addNested, gives_bind_liftM]
  constructor
  · rintro ⟨package, hpackage, hgives⟩
    exact ⟨_, Except.bind_eq_ok.2 ⟨package, hpackage, rfl⟩, gives_block.1 hgives⟩
  · rintro ⟨bs, hbs, hadds⟩
    obtain ⟨package, hpackage, hbs⟩ := Except.bind_eq_ok.1 hbs
    cases hbs
    exact ⟨package, hpackage, gives_block.2 hadds⟩

theorem gives_addOwn {package : Option PackageRef} {file : SourceFile} {p q : Project} :
    (addOwn package file).Gives p () q ↔
      ∃ bs, file.ownBlocks package = .ok bs ∧ Project.Adds bs p q := by
  unfold addOwn SourceFile.ownBlocks
  by_cases hitems : file.document.items.isEmpty
  · simp [hitems, gives_pure, Project.adds_nil]
  · cases package with
    | none => simp [hitems, not_gives_throw]
    | some package => simp [hitems, gives_block]

theorem gives_addFile (package : Option PackageRef) (file : SourceFile) (p q : Project) :
    (addFile package file).Gives p () q ↔
      ∃ bs, file.blocks package = .ok bs ∧ Project.Adds bs p q := by
  rw [addFile_eq, gives_bind]
  constructor
  · rintro ⟨_, mid, hown, hnested⟩
    obtain ⟨own, hown, hfirst⟩ := gives_addOwn.1 hown
    obtain ⟨nested, hnested, hmore⟩ := (gives_forM gives_addNested).1 hnested
    exact ⟨_, Except.bind_eq_ok.2 ⟨own, hown, Except.bind_eq_ok.2 ⟨nested, hnested, rfl⟩⟩,
      Project.adds_append.2 ⟨mid, hfirst, hmore⟩⟩
  · rintro ⟨bs, hbs, hadds⟩
    obtain ⟨own, hown, hbs⟩ := Except.bind_eq_ok.1 hbs
    obtain ⟨nested, hnested, hbs⟩ := Except.bind_eq_ok.1 hbs
    cases hbs
    obtain ⟨mid, hfirst, hmore⟩ := Project.adds_append.1 hadds
    exact ⟨(), mid, gives_addOwn.2 ⟨own, hown, hfirst⟩,
      (gives_forM gives_addNested).2 ⟨nested, hnested, hmore⟩⟩

/-- A group that loads adds the parts of its blocks, one after the other. -/
theorem gives_addGroup (g : SourceGroup) (p q : Project) :
    (addGroup g).Gives p () q ↔ ∃ bs, g.blocks = .ok bs ∧ Project.Adds bs p q := by
  unfold addGroup SourceGroup.blocks
  rw [gives_bind_liftM]
  constructor
  · rintro ⟨package, hpackage, hfiles⟩
    obtain ⟨bss, hbss, hadds⟩ := (gives_forM (gives_addFile package)).1 hfiles
    exact ⟨_, Except.bind_eq_ok.2 ⟨package, hpackage, Except.bind_eq_ok.2 ⟨bss, hbss, rfl⟩⟩, hadds⟩
  · rintro ⟨bs, hbs, hadds⟩
    obtain ⟨package, hpackage, hbs⟩ := Except.bind_eq_ok.1 hbs
    obtain ⟨bss, hbss, hbs⟩ := Except.bind_eq_ok.1 hbs
    cases hbs
    exact ⟨package, hpackage, (gives_forM (gives_addFile package)).2 ⟨bss, hbss, hadds⟩⟩

end LoadM

namespace Project

/-- A project that is loaded from groups is the sum of the parts of their blocks. -/
theorem ofGroups_eq_ok {groups : List SourceGroup} {p : Project} :
    ofGroups groups = .ok p ↔ ∃ bss, groups.mapM SourceGroup.blocks = .ok bss ∧
      Adds bss.flatten {} p := by
  rw [← LoadM.gives_forM LoadM.gives_addGroup (u := ()), ofGroups, LoadM.Gives]
  obtain ⟨answer, q⟩ := (groups.forM LoadM.addGroup).run.run {}
  constructor
  · intro h
    obtain ⟨_, rfl, rfl⟩ := Except.map_eq_ok.1 h
    rfl
  · intro h
    cases h
    rfl

end Project

end ComponentAbi
