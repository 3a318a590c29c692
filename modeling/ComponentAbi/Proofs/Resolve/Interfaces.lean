import ComponentAbi.Project
import ComponentAbi.Proofs.Resolve.Places

/-!
# Interfaces that worlds refer to

The interface that a world imports or exports is looked up by a walk over definitions, and without
worlds as possible results. It visits the places that the search for containers visits
(`Project.findInterface_eq_ok_iff`), so both come to the same interface, unless a world of the name
is found instead of it (`Project.findInterface_agrees_findContainer`).
-/

namespace ComponentAbi

/-! ### Names in a container -/

namespace Container

variable {c last : Container} {name : String} {names : List String} {i : Interface} {w : World}

/-- The interface of a name that is declared in the container. -/
def declared? (name : String) (c : Container) : Option Interface :=
  c.definitions.interfaces.find? name

theorem Holds.declared (h : c.Holds name (.interface i)) : c.declared? name = some i := by
  cases h with
  | interface _ h | inWorld h | inInterface h => exact h

/-- An interface that is declared is nested under its name, or a world hides it. -/
theorem nested?_of_declared (h : c.declared? name = some i) :
    c.nested? name = some (.interface i) ∨ ∃ w, c.nested? name = some (.world w) := by
  cases c with
  | package contents =>
    cases hworld : contents.worlds.find? name with
    | some w => exact .inr ⟨w, nested?_eq_some_iff.2 (.world hworld)⟩
    | none => exact .inl (nested?_eq_some_iff.2 (.interface hworld h))
  | world w => exact .inl (nested?_eq_some_iff.2 (.inWorld h))
  | interface outer => exact .inl (nested?_eq_some_iff.2 (.inInterface h))

/-- No package is nested in a container. -/
theorem Leads.of_package {contents : PackageContents} (h : c.Leads names (.package contents)) :
    c = .package contents := by
  induction names generalizing c with
  | nil =>
    cases h
    rfl
  | cons name names ih =>
    cases h with
    | step hstep hrest => cases ih hrest ▸ hstep

end Container

/-! ### Walking definitions -/

namespace Project

variable {p : Project} {contents : PackageContents} {package : PackageRef} {names : List String}
  {name : String} {i : Interface}

theorem foldlM_definitions {c : Container} (hc : ∀ name, c.nested? name =
      (c.definitions.interfaces.find? name).map .interface) :
    names.foldlM (fun (d : Definitions) name => (d.interfaces.find? name).map (·.definitions))
      c.definitions = (c.walk? names).map (·.definitions) := by
  induction names generalizing c with
  | nil => rfl
  | cons name names ih =>
    rw [Container.walk?, List.foldlM_cons, List.foldlM_cons, hc]
    cases c.definitions.interfaces.find? name with
    | none => rfl
    | some i => exact ih (c := .interface i) fun _ => rfl

/-- Walking definitions leads to the definitions of the container that is walked to. -/
theorem definitionsAt?_eq : definitionsAt? contents names =
    ((Container.package contents).walk? names).map (·.definitions) := by
  cases names with
  | nil => rfl
  | cons name names =>
    rw [definitionsAt?, Container.walk?, List.foldlM_cons, Container.nested?]
    cases contents.worlds.find? name with
    | some w => exact foldlM_definitions (c := .world w) fun _ => rfl
    | none =>
      dsimp only [Container.definitions]
      cases contents.definitions.interfaces.find? name with
      | some i => exact foldlM_definitions (c := .interface i) fun _ => rfl
      | none => rfl

theorem interfaceWithin_succ (depth : Nat) : interfaceWithin contents names name (depth + 1) =
    (((Container.package contents).walk? (names.take (depth + 1))).bind
      (·.declared? name)).or (interfaceWithin contents names name depth) := by
  rw [interfaceWithin, definitionsAt?_eq, Option.bind_map]
  rfl

/-! ### Visiting places -/

theorem interfaceWithin_eq (depth : Nat) : interfaceWithin contents names name depth =
    ((List.range (depth + 1)).reverse.map fun depth =>
      Place.within package contents (names.take depth)).findSome? fun place =>
        place.container?.bind (·.declared? name) := by
  induction depth with
  | zero => exact List.findSome?_singleton.symm
  | succ depth ih =>
    rw [interfaceWithin_succ, ih, List.range_succ (n := depth + 1), List.reverse_append,
      List.reverse_singleton, List.singleton_append, List.map_cons, List.findSome?_cons]
    dsimp only [Place.container?]
    cases ((Container.package contents).walk? (names.take (depth + 1))).bind (·.declared? name) <;>
      rfl

theorem interfaceIn_toOption : (p.interfaceIn name package names).toOption =
    (p.store.placesIn package names).findSome? fun place =>
      place.container?.bind (·.declared? name) := by
  rw [interfaceIn, PackageStore.lookup, PackageStore.placesIn]
  cases p.store.contents? package with
  | none => rfl
  | some contents =>
    dsimp only
    rw [← interfaceWithin_eq]
    cases interfaceWithin contents names name names.length <;> rfl

/-- The interface that a world refers to is the one that the first place declares, among the places
that a search visits. -/
theorem findInterface_eq_ok_iff : p.findInterface package name = .ok i ↔
    Place.FirstHas (·.declared? name) (p.store.places package) i := by
  rw [Place.firstHas_iff, PackageStore.places, ← List.head?_filterMap, List.filterMap_flatMap,
    List.head?_flatMap]
  rw [findInterface, Except.mapError_eq_ok, PackageStore.outwards_eq,
    PackageStore.firstOk_eq_ok_iff, List.findSome?_map]
  simp only [Function.comp_def, interfaceIn_toOption, List.head?_filterMap]

/-! ### The same places as a search for containers -/

/-- A place where nothing is nested under the name declares no interface of it. -/
theorem not_has_declared {place : Place} (h : ∀ c, ¬ place.Has (·.nested? name) c) (i : Interface) :
    ¬ place.Has (·.declared? name) i := by
  rintro ⟨leads, declared⟩
  obtain hi | ⟨w, hw⟩ := Container.nested?_of_declared declared
  · exact h _ ⟨leads, hi⟩
  · exact h _ ⟨leads, hw⟩

theorem findInterface_of_findContainer
    (h : p.store.findContainer package name = .ok (.interface i)) :
    p.findInterface package name = .ok i := by
  obtain ⟨before, _, after, hplaces, ⟨leads, probed⟩, hnone⟩ :=
    PackageStore.findContainer_eq_ok_iff.1 h
  exact findInterface_eq_ok_iff.2 ⟨before, _, after, hplaces,
    ⟨leads, (Container.nested?_eq_some_iff.1 probed).declared⟩,
    fun other hother => not_has_declared (hnone other hother)⟩

/-- A container that is found and is no interface is a world of a leading part of the scope. -/
theorem exists_world_of_findContainer {c : Container}
    (h : p.store.findContainer package name = .ok c) (hc : ∀ i, c ≠ .interface i) :
    ∃ w, c = .world w ∧ ∃ length ∈ leadingLengths package.name.path.length, ∃ contents,
      p.store.contents? (package.leading length) = some contents ∧
        contents.worlds.find? name = some w := by
  obtain ⟨before, _, after, hplaces, ⟨leads, probed⟩, -⟩ :=
    PackageStore.findContainer_eq_ok_iff.1 h
  cases Container.nested?_eq_some_iff.1 probed with
  | world hworld =>
    cases leads.of_package
    have hmem := hplaces ▸ List.mem_append_right before List.mem_cons_self
    obtain ⟨length, hlength, hcontents⟩ := PackageStore.exists_length_of_within_mem hmem
    exact ⟨_, rfl, length, hlength, _, hcontents, hworld⟩
  | interface _ _ | inWorld _ | inInterface _ => exact absurd rfl (hc _)

/-- For every scope and name: an interface that is found as a container is found as an interface
too. If no container is found, no interface is. If no interface is found, then no container is, or
it is a world of the name, in a leading part of the scope. -/
theorem findInterface_agrees_findContainer (p : Project) (package : PackageRef) (name : String) :
    (∀ i, p.store.findContainer package name = .ok (.interface i) →
      p.findInterface package name = .ok i) ∧
    (∀ e, p.store.findContainer package name = .error e →
      ∃ e', p.findInterface package name = .error e') ∧
    ∀ e, p.findInterface package name = .error e →
      (∃ e', p.store.findContainer package name = .error e') ∨
      ∃ w, p.store.findContainer package name = .ok (.world w) ∧
        ∃ length ∈ leadingLengths package.name.path.length, ∃ contents,
          p.store.contents? (package.leading length) = some contents ∧
            contents.worlds.find? name = some w := by
  refine ⟨fun i => findInterface_of_findContainer, fun e he => ?_, fun e he => ?_⟩
  · have hnone := (PackageStore.mapError_search_eq_error_iff.1 he).1
    cases hi : p.findInterface package name with
    | error e' => exact ⟨e', rfl⟩
    | ok i =>
      obtain ⟨before, place, after, hplaces, hi, -⟩ := findInterface_eq_ok_iff.1 hi
      have hplace := hnone place (hplaces ▸ List.mem_append_right before List.mem_cons_self)
      exact absurd hi (not_has_declared hplace i)
  · cases hc : p.store.findContainer package name with
    | error e' => exact .inl ⟨e', rfl⟩
    | ok c =>
      have hinterface : ∀ i, c ≠ .interface i := by
        rintro i rfl
        rw [findInterface_of_findContainer hc] at he
        cases he
      obtain ⟨w, rfl, hworld⟩ := exists_world_of_findContainer hc hinterface
      exact .inr ⟨w, rfl, hworld⟩

end Project

end ComponentAbi
