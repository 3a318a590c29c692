import ComponentAbi.Proofs.LoadOrder.Renumbering
import ComponentAbi.Proofs.Resolve.Interfaces

/-!
# Names lead to the same places

Stores that hold the same, with other ids, answer every search alike
(`PackageStore.Mirrors.search`). So every name leads to the type, interface or world that it led to
before (`PackageStore.Mirrors.hop`, `Project.findInterface_mirrors`, `Project.world_mirrors`).
-/

namespace ComponentAbi

/-! ### Related lists -/

section Related

variable {α β : Type} {R : α → β → Prop} {xs : List α} {ys : List β}

theorem optionRel_find? (h : List.Forall₂ R xs ys) {p : α → Bool} {q : β → Bool}
    (hpq : ∀ x y, R x y → p x = q y) : Option.Rel R (xs.find? p) (ys.find? q) := by
  induction h with
  | nil => exact .none
  | @cons x y xs ys hfirst _ ih =>
    rw [List.find?_cons, List.find?_cons, ← hpq x y hfirst]
    cases p x with
    | true => exact .some hfirst
    | false => exact ih

theorem optionRel_getLast? (h : List.Forall₂ R xs ys) :
    Option.Rel R xs.getLast? ys.getLast? := by
  induction h with
  | nil => exact .none
  | cons hfirst hrest ih =>
    cases hrest with
    | nil => exact .some hfirst
    | cons _ _ => simpa [List.getLast?_cons_cons] using ih

theorem optionRel_map {γ δ : Type} {S : γ → δ → Prop} {f : α → γ} {g : β → δ} {o : Option α}
    {u : Option β} (h : Option.Rel R o u) (hfg : ∀ x y, R x y → S (f x) (g y)) :
    Option.Rel S (o.map f) (u.map g) := by
  cases h with
  | none => exact .none
  | some hxy => exact .some (hfg _ _ hxy)

theorem optionRel_or {o o' : Option α} {u u' : Option β} (h : Option.Rel R o u)
    (h' : Option.Rel R o' u') : Option.Rel R (o.or o') (u.or u') := by
  cases h with
  | none => exact h'
  | some hxy => exact .some hxy

end Related

variable {ρ : TypeId → TypeId}

/-! ### Containers -/

namespace Container

/-- The container with all ids renamed. -/
def rename (ρ : TypeId → TypeId) : Container → Container
  | package contents => package (contents.rename ρ)
  | world w => world (w.rename ρ)
  | interface i => interface (i.rename ρ)

/-- The same names stand for the same in both, with other ids. -/
structure Mirrors (ρ : TypeId → TypeId) (c d : Container) : Prop where
  /-- Types. -/
  type? : ∀ name, d.type? name = (c.type? name).map ρ
  /-- Interfaces. -/
  interface? : ∀ name, d.definitions.interfaces.find? name =
    (c.definitions.interfaces.find? name).map (Interface.rename ρ)
  /-- Nested containers. -/
  nested? : ∀ name, d.nested? name = (c.nested? name).map (rename ρ)

theorem mirrors_of_definitions {c d : Container} (hd : d.definitions = c.definitions.rename ρ)
    (hc : ∀ name, c.nested? name = (c.definitions.interfaces.find? name).map interface)
    (hd' : ∀ name, d.nested? name = (d.definitions.interfaces.find? name).map interface) :
    c.Mirrors ρ d where
  type? name := by
    rw [Container.type?, Container.type?, hd, DefinitionsOf.rename, NameMap.find?_map]
  interface? name := by rw [hd, DefinitionsOf.rename, NameMap.find?_map]
  nested? name := by
    rw [hd', hc, hd, DefinitionsOf.rename, NameMap.find?_map, Option.map_map, Option.map_map]
    rfl

theorem mirrors_world (w : World) : (world w).Mirrors ρ (world (w.rename ρ)) :=
  mirrors_of_definitions rfl (fun _ => rfl) fun _ => rfl

theorem mirrors_interface (i : Interface) : (interface i).Mirrors ρ (interface (i.rename ρ)) :=
  mirrors_of_definitions (Interface.rename_definitions i) (fun _ => rfl) fun _ => rfl

theorem mirrors_package {c d : PackageContents} (h : (c.rename ρ).Same d) :
    (package c).Mirrors ρ (package d) where
  type? name := by
    rw [Container.type?, Container.type?, definitions, definitions, ← h.types]
    exact NameMap.find?_map ..
  interface? name := by
    rw [definitions, definitions, ← h.interfaces]
    exact NameMap.find?_map ..
  nested? name := by
    rw [Container.nested?, Container.nested?, definitions, definitions, ← h.interfaces, ← h.worlds]
    change ((c.worlds.map (World.rename ρ)).find? name |>.map world).or
      (((c.definitions.interfaces.map (Interface.rename ρ)).find? name).map interface) = _
    rw [NameMap.find?_map, NameMap.find?_map, Option.map_or, Option.map_map, Option.map_map,
      Option.map_map, Option.map_map]
    rfl

theorem mirrors_rename : ∀ c : Container, c.Mirrors ρ (c.rename ρ)
  | package _ => mirrors_package (.refl _)
  | world w => mirrors_world w
  | interface i => mirrors_interface i

theorem walk?_rename (c : Container) (names : List String) :
    (c.rename ρ).walk? names = (c.walk? names).map (rename ρ) := by
  induction names generalizing c with
  | nil => rfl
  | cons name rest ih =>
    rw [walk?, walk?, List.foldlM_cons, List.foldlM_cons, (mirrors_rename c).nested? name]
    cases c.nested? name with
    | none => rfl
    | some inner => exact ih inner

/-- Walking the same names ends in places with the same names, or nowhere in both. -/
theorem Mirrors.walk? {c d : Container} (h : c.Mirrors ρ d) (names : List String) :
    Option.Rel (Mirrors ρ) (c.walk? names) (d.walk? names) := by
  cases names with
  | nil => exact .some h
  | cons name rest =>
    rw [Container.walk?, Container.walk?, List.foldlM_cons, List.foldlM_cons, h.nested? name]
    cases c.nested? name with
    | none => exact .none
    | some inner =>
      change Option.Rel _ (inner.walk? rest) ((inner.rename ρ).walk? rest)
      rw [walk?_rename]
      cases inner.walk? rest with
      | none => exact .none
      | some place => exact .some (mirrors_rename place)

end Container

/-! ### Searching -/

namespace PackageStore

variable {α β : Type} {s t : PackageStore} {r : α → β} {probe : Container → Option α}
  {probe' : Container → Option β} {ref : PackageRef}

/-- The packages of both have the same in them, with other ids. -/
def Mirrors (ρ : TypeId → TypeId) (s t : PackageStore) : Prop :=
  (s.rename ρ).Same t

theorem Same.contents? (h : s.Same t) (ref : PackageRef) :
    Option.Rel PackageContents.Same (s.contents? ref) (t.contents? ref) := by
  have hpackage : Option.Rel Package.Same (s.find? ref.name) (t.find? ref.name) :=
    optionRel_find? h fun p q hpq => by rw [hpq.1]
  change Option.Rel _ ((s.find? ref.name).bind _) ((t.find? ref.name).bind _)
  generalize s.find? ref.name = found, t.find? ref.name = found' at hpackage ⊢
  cases hpackage with
  | none => exact .none
  | @some p q hpq =>
    have hexact (version : Option Version) :
        Option.Rel PackageContents.Same (p.contents? version) (q.contents? version) := by
      refine optionRel_map (optionRel_find? hpq.2 fun e f hef => ?_) fun _ _ hef => hef.2
      rw [Std.TransCmp.congr_right hef.1]
    have hlatest : Option.Rel PackageContents.Same (p.latest?.map (·.2)) (q.latest?.map (·.2)) :=
      optionRel_map (optionRel_getLast? hpq.2) fun _ _ hef => hef.2
    simp only [Option.bind_some]
    cases ref.version with
    | some version => exact hexact (some version)
    | none => exact optionRel_or (hexact none) hlatest

theorem contents?_rename (s : PackageStore) (ref : PackageRef) :
    (s.rename ρ).contents? ref = (s.contents? ref).map (PackageContents.rename ρ) := by
  have hfind : (s.rename ρ).find? ref.name = (s.find? ref.name).map (Package.rename ρ) := by
    rw [find?, find?, rename, List.find?_map]
    rfl
  have hexact (p : Package) (version : Option Version) :
      (p.rename ρ).contents? version = (p.contents? version).map (PackageContents.rename ρ) := by
    rw [Package.contents?, Package.contents?, Package.rename, List.find?_map, Option.map_map,
      Option.map_map]
    rfl
  have hlatest (p : Package) :
      (p.rename ρ).latest?.map (·.2) = (p.latest?.map (·.2)).map (PackageContents.rename ρ) := by
    rw [Package.latest?, Package.latest?, Package.rename, List.getLast?_map, Option.map_map,
      Option.map_map]
    rfl
  change ((s.rename ρ).find? ref.name).bind _ = ((s.find? ref.name).bind _).map _
  rw [hfind]
  cases s.find? ref.name with
  | none => rfl
  | some p =>
    simp only [Option.map_some, Option.bind_some]
    cases ref.version with
    | some version => exact hexact p (some version)
    | none =>
      simp only
      rw [hexact, hlatest, Option.map_or]

/-- A package is loaded in both or in neither, with the same names. -/
theorem Mirrors.lookup (h : s.Mirrors ρ t) (ref : PackageRef) :
    (∃ c d, s.lookup ref = .ok c ∧ t.lookup ref = .ok d ∧ (c.rename ρ).Same d) ∨
      ∃ e, s.lookup ref = .error e ∧ t.lookup ref = .error e := by
  have hrel := h.contents? ref
  rw [contents?_rename] at hrel
  rw [PackageStore.lookup, PackageStore.lookup]
  cases hs : s.contents? ref with
  | none =>
    rw [hs] at hrel
    cases ht : t.contents? ref with
    | none => exact .inr ⟨_, rfl, rfl⟩
    | some d =>
      rw [ht] at hrel
      cases hrel
  | some c =>
    rw [hs] at hrel
    cases ht : t.contents? ref with
    | none =>
      rw [ht] at hrel
      cases hrel
    | some d =>
      rw [ht] at hrel
      cases hrel with
      | some hsame => exact .inl ⟨c, d, rfl, rfl, hsame⟩

section Probing

variable (hprobe : ∀ c d : Container, c.Mirrors ρ d → probe' d = (probe c).map r)

include hprobe

theorem probeAt_mirrors {c d : Container} (h : c.Mirrors ρ d) (names : List String) :
    probeAt probe' ref d names = (probeAt probe ref c names).map r := by
  rw [probeAt, probeAt]
  have hwalk := h.walk? names
  revert hwalk
  cases c.walk? names with
  | none => cases d.walk? names <;> intro hwalk <;> cases hwalk; rfl
  | some inner =>
    cases d.walk? names with
    | none => intro hwalk; cases hwalk
    | some inner' =>
      intro hwalk
      cases hwalk with
      | some hinner =>
        simp only [hprobe _ _ hinner]
        cases probe inner <;> rfl

theorem searchWithin_mirrors {c d : Container} (h : c.Mirrors ρ d) (names : List String)
    (depth : Nat) :
    searchWithin probe' ref d names depth = (searchWithin probe ref c names depth).map r := by
  induction depth with
  | zero =>
    rw [searchWithin, searchWithin, probeAt_mirrors hprobe h]
    cases probeAt probe ref c [] <;> rfl
  | succ depth ih =>
    rw [searchWithin, searchWithin, probeAt_mirrors hprobe h]
    cases probeAt probe ref c (names.take (depth + 1)) with
    | ok found => rfl
    | error attempt =>
      simp only [Except.map, ih]
      cases searchWithin probe ref c names depth <;> rfl

omit hprobe in
theorem outwardsFrom_map {visit : PackageRef → List String → Except (List String) α}
    {visit' : PackageRef → List String → Except (List String) β}
    (hvisit : ∀ ref names, visit' ref names = (visit ref names).map r) (namespaces : List String)
    (version : Option Version) (stripped path : List String) :
    outwardsFrom visit' namespaces version stripped path =
      (outwardsFrom visit namespaces version stripped path).map r := by
  induction path generalizing stripped with
  | nil => exact hvisit _ _
  | cons last outer ih =>
    rw [outwardsFrom, outwardsFrom]
    simp only [hvisit]
    cases visit _ stripped with
    | ok found => rfl
    | error attempts =>
      simp only [Except.map]
      split
      · rfl
      · rw [ih]
        cases outwardsFrom visit namespaces version (last :: stripped) outer <;> rfl

/-- A search finds the same. -/
theorem Mirrors.search (h : s.Mirrors ρ t) (package : PackageRef) :
    t.search probe' package = (s.search probe package).map r := by
  refine outwardsFrom_map (fun ref names => ?_) _ _ _ _
  rw [searchPackage, searchPackage]
  rcases h.lookup ref with ⟨c, d, hc, hd, hsame⟩ | ⟨e, he, he'⟩
  · rw [hc, hd]
    exact searchWithin_mirrors hprobe (Container.mirrors_package hsame) names names.length
  · rw [he, he']
    rfl

end Probing

theorem Mirrors.findType (h : s.Mirrors ρ t) (package : PackageRef) (name : String) :
    t.findType package name = (s.findType package name).map ρ := by
  rw [PackageStore.findType, PackageStore.findType, h.search fun _ _ hcd => hcd.type? name]
  cases s.search (·.type? name) package <;> rfl

theorem Mirrors.findContainer (h : s.Mirrors ρ t) (package : PackageRef) (name : String) :
    t.findContainer package name = (s.findContainer package name).map (Container.rename ρ) := by
  rw [PackageStore.findContainer, PackageStore.findContainer,
    h.search fun _ _ hcd => hcd.nested? name]
  cases s.search (·.nested? name) package <;> rfl

theorem Mirrors.hop (h : s.Mirrors ρ t) (target : Reference) :
    t.hop target = (s.hop target).map ρ := by
  cases target with
  | named package name => exact h.findType package name
  | used package container name =>
    rw [PackageStore.hop, PackageStore.hop, h.findContainer]
    cases s.findContainer package container with
    | error e => rfl
    | ok origin =>
      simp only [Except.map, bind, Except.bind, (Container.mirrors_rename origin).type? name]
      cases origin.type? name <;> rfl

end PackageStore

/-! ### Interfaces and worlds -/

namespace Project

variable {p q : Project}

theorem interfaceWithin_mirrors {c d : PackageContents}
    (h : (Container.package c).Mirrors ρ (.package d)) (names : List String) (name : String)
    (depth : Nat) :
    interfaceWithin d names name depth =
      (interfaceWithin c names name depth).map (Interface.rename ρ) := by
  induction depth with
  | zero => exact h.interface? name
  | succ depth ih =>
    have hwalk := h.walk? (names.take (depth + 1))
    rw [interfaceWithin_succ, interfaceWithin_succ, ih, Option.map_or]
    congr 1
    generalize (Container.package c).walk? (names.take (depth + 1)) = inner,
      (Container.package d).walk? (names.take (depth + 1)) = inner' at hwalk
    cases hwalk with
    | none => rfl
    | some hinner => exact hinner.interface? name

theorem findInterface_mirrors (h : p.store.Mirrors ρ q.store) (package : PackageRef)
    (name : String) :
    q.findInterface package name = (p.findInterface package name).map (Interface.rename ρ) := by
  have hvisit (ref : PackageRef) (names : List String) : q.interfaceIn name ref names =
      (p.interfaceIn name ref names).map (Interface.rename ρ) := by
    rw [interfaceIn, interfaceIn]
    rcases h.lookup ref with ⟨c, d, hc, hd, hsame⟩ | ⟨e, he, he'⟩
    · rw [hc, hd]
      simp only [interfaceWithin_mirrors (Container.mirrors_package hsame)]
      cases interfaceWithin c names name names.length <;> rfl
    · rw [he, he']
      rfl
  rw [findInterface, findInterface, PackageStore.outwards, PackageStore.outwards,
    PackageStore.outwardsFrom_map hvisit]
  cases PackageStore.outwardsFrom (p.interfaceIn name) package.name.namespaces package.version []
    package.name.path.reverse <;> rfl

theorem worldIn_mirrors (h : p.store.Mirrors ρ q.store) (package : PackageRef) (name : String) :
    q.worldIn package name = (p.worldIn package name).map (World.rename ρ) := by
  rw [worldIn, worldIn]
  rcases h.lookup package with ⟨c, d, hc, hd, hsame⟩ | ⟨e, he, he'⟩
  · have hfind : d.worlds.find? name = (c.worlds.find? name).map (World.rename ρ) := by
      rw [← hsame.worlds]
      exact NameMap.find?_map ..
    rw [hc, hd]
    simp only [bind, Except.bind, hfind]
    cases c.worlds.find? name <;> rfl
  · rw [he, he']
    rfl

theorem world_mirrors (h : p.store.Mirrors ρ q.store) (reference : String) :
    q.world reference = (p.world reference).map (World.rename ρ) := by
  rw [Project.world, Project.world]
  cases (PackageRef.parse reference).mapError Failure.name with
  | error e => rfl
  | ok parsed =>
    simp only [bind, Except.bind]
    cases parsed.splitLast? with
    | none => rfl
    | some parts =>
      simp only [worldIn_mirrors h]
      cases p.worldIn parts.2 parts.1 <;> rfl

theorem findNamed_mirrors (h : p.store.Mirrors ρ q.store) (reference : String) :
    q.findNamed reference = (p.findNamed reference).map ρ := by
  have hfind (container suffix name : String) :
      ((PackageRef.parse (container ++ suffix)).mapError Failure.name).bind
          (fun package => (q.store.findType package name).mapError .resolve) =
        (((PackageRef.parse (container ++ suffix)).mapError Failure.name).bind
          fun package => (p.store.findType package name).mapError .resolve).map ρ := by
    cases (PackageRef.parse (container ++ suffix)).mapError Failure.name with
    | error e => rfl
    | ok package =>
      simp only [Except.bind, h.findType]
      cases p.store.findType package name <;> rfl
  have hsplit (path suffix : String) :
      (splitTypeReference reference path).bind (fun parts =>
        ((PackageRef.parse (parts.1 ++ suffix)).mapError Failure.name).bind
          fun package => (q.store.findType package parts.2).mapError .resolve) =
        ((splitTypeReference reference path).bind fun parts =>
          ((PackageRef.parse (parts.1 ++ suffix)).mapError Failure.name).bind
            fun package => (p.store.findType package parts.2).mapError .resolve).map ρ := by
    cases splitTypeReference reference path with
    | error e => rfl
    | ok parts => exact hfind parts.1 suffix parts.2
  rw [findNamed, findNamed]
  cases Text.cutLast '@' reference with
  | none => exact hsplit reference ""
  | some parts => exact hsplit parts.1 ("@" ++ parts.2)

end Project

end ComponentAbi
