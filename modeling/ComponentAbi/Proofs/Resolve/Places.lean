import ComponentAbi.Proofs.Except
import ComponentAbi.Resolver

/-!
# The places of a search

From a scope, a search visits the leading parts of its path, the longest first (`leadingLengths`).
A leading part that is a package has one place for every number of segments that are walked from it,
the greatest first; one that is no package is a place where nothing is found
(`PackageStore.places`). The search finds what the first place has that has anything, and fails if
no place has it, with one attempt for each place in their order (`PackageStore.search_eq`).

* `Container.walk?_eq_some_iff` : walking names leads from a container to those nested in it;
* `PackageStore.search_finds_first_match` : what a type and a container are found as.
-/

namespace ComponentAbi

/-! ### Nested containers -/

namespace Container

/-- The container `c` has another nested in it under a name. In a package, an interface is nested
under its name unless a world is. -/
inductive Holds : Container → String → Container → Prop where
  | world {contents : PackageContents} {name : String} {w : World}
    (h : contents.worlds.find? name = some w) : Holds (.package contents) name (.world w)
  | interface {contents : PackageContents} {name : String} {i : Interface}
    (hworld : contents.worlds.find? name = none)
    (h : contents.definitions.interfaces.find? name = some i) :
    Holds (.package contents) name (.interface i)
  | inWorld {w : World} {name : String} {i : Interface}
    (h : w.definitions.interfaces.find? name = some i) : Holds (.world w) name (.interface i)
  | inInterface {outer : Interface} {name : String} {i : Interface}
    (h : outer.definitions.interfaces.find? name = some i) :
    Holds (.interface outer) name (.interface i)

/-- Names lead from a container to one nested in it, each to the next. -/
inductive Leads : Container → List String → Container → Prop where
  | here (c : Container) : Leads c [] c
  | step {c inner last : Container} {name : String} {names : List String}
    (h : c.Holds name inner) (rest : Leads inner names last) : Leads c (name :: names) last

variable {c inner : Container} {name : String} {names : List String}

theorem nested?_eq_some_iff : c.nested? name = some inner ↔ c.Holds name inner := by
  constructor
  · intro h
    cases c with
    | package contents =>
      cases hworld : contents.worlds.find? name with
      | some w =>
        simp only [nested?, hworld, Option.map_some, Option.some_or, Option.some.injEq] at h
        exact h ▸ .world hworld
      | none =>
        simp only [nested?, hworld, Option.map_none, Option.none_or, Option.map_eq_some_iff] at h
        obtain ⟨i, hi, rfl⟩ := h
        exact .interface hworld hi
    | world w =>
      obtain ⟨i, hi, rfl⟩ := Option.map_eq_some_iff.1 h
      exact .inWorld hi
    | interface outer =>
      obtain ⟨i, hi, rfl⟩ := Option.map_eq_some_iff.1 h
      exact .inInterface hi
  · intro h
    cases h with
    | world h => simp [nested?, h]
    | interface hworld h => simp [nested?, definitions, hworld, h]
    | inWorld h | inInterface h => simp [nested?, definitions, h]

/-- Walking names leads to the containers nested under them. -/
theorem walk?_eq_some_iff : c.walk? names = some inner ↔ c.Leads names inner := by
  induction names generalizing c with
  | nil =>
    constructor
    · intro h
      cases h
      exact .here _
    · intro h
      cases h
      rfl
  | cons name names ih =>
    rw [walk?, List.foldlM_cons, Option.bind_eq_bind, Option.bind_eq_some_iff]
    constructor
    · rintro ⟨next, hnext, hrest⟩
      exact .step (nested?_eq_some_iff.1 hnext) (ih.1 hrest)
    · intro h
      cases h with
      | step h rest => exact ⟨_, nested?_eq_some_iff.2 h, ih.2 rest⟩

end Container

/-! ### Places -/

/-- The part of a reference with the first `length` segments of its path. -/
def PackageRef.leading (ref : PackageRef) (length : Nat) : PackageRef :=
  { ref with name := { ref.name with path := ref.name.path.take length } }

/-- The lengths of the leading parts of a path that can name a package: all segments, then one less,
down to the first. A path without segments has itself as its only part. -/
def leadingLengths (length : Nat) : List Nat :=
  (List.range (max 1 length)).map (length - ·)

/-- A place that a search visits. -/
inductive Place where
  /-- A reference that is no package. -/
  | missing (package : PackageRef)
  /-- The container that `names` lead to from the contents of a package, if there is one. -/
  | within (package : PackageRef) (contents : PackageContents) (names : List String)
deriving Repr

namespace Place

variable {α : Type}

/-- The container at the place. -/
def container? : Place → Option Container
  | missing _ => none
  | within _ contents names => (Container.package contents).walk? names

/-- What is said of the place when nothing is found there. -/
def attempt : Place → String
  | missing package => (ResolveError.unknownPackage package.toText).message
  | within package contents names =>
    if ((Container.package contents).walk? names).isSome then
      "not found in '" ++ PackageStore.location package names ++ "'"
    else "no container '" ++ PackageStore.location package names ++ "'"

/-- There is a container at the place, and `probe` finds something in it. -/
inductive Has (probe : Container → Option α) : Place → α → Prop where
  | mk {package : PackageRef} {contents : PackageContents} {names : List String} {c : Container}
    {found : α} (leads : (Container.package contents).Leads names c)
    (probed : probe c = some found) :
    Has probe (within package contents names) found

/-- The first place that has anything has this. -/
def FirstHas (probe : Container → Option α) (places : List Place) (found : α) : Prop :=
  ∃ before place after, places = before ++ place :: after ∧ place.Has probe found ∧
    ∀ other ∈ before, ∀ a, ¬ other.Has probe a

theorem has_iff {probe : Container → Option α} {place : Place} {found : α} :
    place.Has probe found ↔ place.container?.bind probe = some found := by
  constructor
  · rintro ⟨leads, probed⟩
    simp [container?, Container.walk?_eq_some_iff.2 leads, probed]
  · intro h
    obtain ⟨c, hc, hprobe⟩ := Option.bind_eq_some_iff.1 h
    cases place with
    | missing package => cases hc
    | within package contents names => exact .mk (Container.walk?_eq_some_iff.1 hc) hprobe

theorem firstHas_iff {probe : Container → Option α} {places : List Place} {found : α} :
    FirstHas probe places found ↔
      places.findSome? (fun place => place.container?.bind probe) = some found := by
  simp only [FirstHas, has_iff, List.findSome?_eq_some_iff, Option.eq_none_iff_forall_ne_some]

end Place

namespace PackageStore

variable {α : Type}

/-- The places of one package name, for a scope that goes on with `names`. -/
def placesIn (s : PackageStore) (package : PackageRef) (names : List String) : List Place :=
  match s.contents? package with
  | none => [.missing package]
  | some contents =>
    (List.range (names.length + 1)).reverse.map fun depth =>
      .within package contents (names.take depth)

/-- The places that a search visits from a scope, in order. -/
def places (s : PackageStore) (ref : PackageRef) : List Place :=
  (leadingLengths ref.name.path.length).flatMap fun length =>
    s.placesIn (ref.leading length) (ref.name.path.drop length)

/-- A search looks into the contents of leading parts of its scope. -/
theorem exists_length_of_within_mem {s : PackageStore} {ref package : PackageRef}
    {contents : PackageContents} {names : List String}
    (h : .within package contents names ∈ s.places ref) :
    ∃ length ∈ leadingLengths ref.name.path.length,
      s.contents? (ref.leading length) = some contents := by
  obtain ⟨length, hlength, hmem⟩ := List.mem_flatMap.1 h
  refine ⟨length, hlength, ?_⟩
  rw [placesIn] at hmem
  cases hcontents : s.contents? (ref.leading length) with
  | none => simp [hcontents] at hmem
  | some found =>
    rw [hcontents] at hmem
    obtain ⟨_, -, heq⟩ := List.mem_map.1 hmem
    cases heq
    rfl

/-- What the first place has that has anything, or else what is said of all places. -/
def visit (probe : Container → Option α) (places : List Place) : Except (List String) α :=
  match places.findSome? fun place => place.container?.bind probe with
  | some found => .ok found
  | none => .error (places.map Place.attempt)

variable {s : PackageStore} {probe : Container → Option α} {package ref : PackageRef}
  {contents : PackageContents} {names : List String} {found : α}

/-! ### Going outwards -/

/-- The first success among some answers, or else the attempts of all of them. -/
def firstOk : List (Except (List String) α) → Except (List String) α
  | [] => .error []
  | .ok found :: _ => .ok found
  | .error attempts :: rest => (firstOk rest).mapError (attempts ++ ·)

theorem firstOk_eq_ok_iff {answers : List (Except (List String) α)} :
    firstOk answers = .ok found ↔ answers.findSome? Except.toOption = some found := by
  induction answers with
  | nil => simp [firstOk]
  | cons answer rest ih =>
    cases answer with
    | ok a => simp [firstOk, List.findSome?_cons, Except.toOption]
    | error attempts =>
      simp [firstOk, List.findSome?_cons, Except.toOption, Except.mapError_eq_ok, ih]

theorem outwardsFrom_eq (visit : PackageRef → List String → Except (List String) α)
    (namespaces : List String) (version : Option Version) (stripped reversedPath : List String) :
    outwardsFrom visit namespaces version stripped reversedPath =
      firstOk ((List.range (max 1 reversedPath.length)).map fun cut =>
        visit { name := { namespaces, path := (reversedPath.drop cut).reverse }, version }
          ((reversedPath.take cut).reverse ++ stripped)) := by
  induction reversedPath generalizing stripped with
  | nil =>
    simp only [outwardsFrom, List.length_nil, Nat.max_zero, List.range_one, List.map_singleton,
      List.drop_nil, List.take_nil, List.reverse_nil, List.nil_append]
    cases visit { name := { namespaces }, version } stripped <;>
      simp [firstOk, Except.mapError_error]
  | cons last outer ih =>
    have hcuts : List.range (max 1 (last :: outer).length) =
        0 :: (List.range outer.length).map Nat.succ := by
      rw [List.length_cons, Nat.max_eq_right (Nat.succ_le_succ (Nat.zero_le _)),
        List.range_succ_eq_map]
    rw [outwardsFrom, hcuts, List.map_cons, List.drop_zero, List.take_zero, List.reverse_nil,
      List.nil_append]
    cases visit { name := { namespaces, path := (last :: outer).reverse }, version } stripped with
    | ok found => rfl
    | error attempts =>
      -- The first segment of a path is never cut off, so here the search ends.
      cases outer with
      | nil => simp [firstOk, Except.mapError_error]
      | cons next outer => simp [ih (last :: stripped), Function.comp_def, firstOk]

/-- Going outwards visits the leading parts of the path, the longest first. -/
theorem outwards_eq (visit : PackageRef → List String → Except (List String) α) (ref : PackageRef) :
    outwards visit ref = firstOk ((leadingLengths ref.name.path.length).map fun length =>
      visit (ref.leading length) (ref.name.path.drop length)) := by
  rw [outwards, outwardsFrom_eq, leadingLengths, List.map_map, List.length_reverse]
  simp only [List.append_nil, List.drop_reverse, List.take_reverse, List.reverse_reverse]
  rfl

/-! ### Visiting places -/

theorem visit_append (places more : List Place) : visit probe (places ++ more) =
    match visit probe places with
    | .ok found => .ok found
    | .error attempts => (visit probe more).mapError (attempts ++ ·) := by
  rw [visit, visit, visit, List.findSome?_append]
  cases places.findSome? (fun place => place.container?.bind probe) with
  | some found => rfl
  | none =>
    rw [Option.none_or]
    cases more.findSome? (fun place => place.container?.bind probe) with
    | some found => rfl
    | none => simp [Except.mapError_error]

theorem visit_singleton (package : PackageRef) (contents : PackageContents) (names : List String) :
    visit probe [.within package contents names] =
      (probeAt probe package (.package contents) names).mapError fun attempt => [attempt] := by
  rw [visit, probeAt, List.findSome?_singleton, Place.container?]
  cases hc : (Container.package contents).walk? names with
  | none => simp [Place.attempt, hc, Except.mapError_error]
  | some c =>
    dsimp only [Option.bind_some]
    cases probe c with
    | none => simp [Place.attempt, hc, Except.mapError_error]
    | some found => rfl

theorem searchWithin_eq (depth : Nat) : searchWithin probe package (.package contents) names depth =
    visit probe ((List.range (depth + 1)).reverse.map fun depth =>
      .within package contents (names.take depth)) := by
  induction depth with
  | zero => exact (visit_singleton package contents []).symm
  | succ depth ih =>
    rw [searchWithin, List.range_succ, List.reverse_append, List.reverse_singleton,
      List.singleton_append, List.map_cons, ← List.singleton_append, visit_append, visit_singleton,
      ← ih]
    cases probeAt probe package (.package contents) (names.take (depth + 1)) <;> rfl

theorem searchPackage_eq (package : PackageRef) (names : List String) :
    s.searchPackage probe package names = visit probe (s.placesIn package names) := by
  rw [searchPackage, placesIn, lookup]
  cases s.contents? package with
  | none => rfl
  | some contents => exact searchWithin_eq names.length

theorem firstOk_map_visit (placesOf : Nat → List Place) (lengths : List Nat) :
    firstOk (lengths.map fun length => visit probe (placesOf length)) =
      visit probe (lengths.flatMap placesOf) := by
  induction lengths with
  | nil => rfl
  | cons length lengths ih =>
    rw [List.map_cons, List.flatMap_cons, visit_append, ← ih]
    cases visit probe (placesOf length) <;> rfl

/-- A search visits the places of its scope in order. -/
theorem search_eq (ref : PackageRef) : s.search probe ref = visit probe (s.places ref) := by
  rw [search, outwards_eq, places, ← firstOk_map_visit]
  simp only [searchPackage_eq]

/-- A search finds what the first place has that has anything. -/
theorem search_eq_ok_iff :
    s.search probe ref = .ok found ↔ Place.FirstHas probe (s.places ref) found := by
  rw [search_eq, visit, Place.firstHas_iff]
  cases (s.places ref).findSome? (fun place => place.container?.bind probe) <;> simp

/-- A search fails if no place has anything, and tells of every place in order. -/
theorem search_eq_error_iff {attempts : List String} : s.search probe ref = .error attempts ↔
    (∀ place ∈ s.places ref, ∀ a, ¬ place.Has probe a) ∧
      attempts = (s.places ref).map Place.attempt := by
  have hnone : (∀ place ∈ s.places ref, ∀ a, ¬ place.Has probe a) ↔
      (s.places ref).findSome? (fun place => place.container?.bind probe) = none := by
    rw [List.findSome?_eq_none_iff]
    simp only [Place.has_iff, Option.eq_none_iff_forall_ne_some, ne_eq]
  rw [search_eq, visit, hnone]
  cases (s.places ref).findSome? (fun place => place.container?.bind probe) <;> simp [eq_comm]

theorem mapError_search_eq_error_iff {f : List String → ResolveError} {e : ResolveError} :
    (s.search probe ref).mapError f = .error e ↔
      (∀ place ∈ s.places ref, ∀ a, ¬ place.Has probe a) ∧
        e = f ((s.places ref).map Place.attempt) := by
  simp only [Except.mapError_eq_error, search_eq_error_iff]
  constructor
  · rintro ⟨_, ⟨hnone, rfl⟩, rfl⟩
    exact ⟨hnone, rfl⟩
  · rintro ⟨hnone, rfl⟩
    exact ⟨_, ⟨hnone, rfl⟩, rfl⟩

theorem findType_eq_ok_iff {name : String} {id : TypeId} : s.findType ref name = .ok id ↔
    Place.FirstHas (·.type? name) (s.places ref) id := by
  rw [findType, Except.mapError_eq_ok, search_eq_ok_iff]

theorem findContainer_eq_ok_iff {name : String} {c : Container} : s.findContainer ref name = .ok c ↔
    Place.FirstHas (·.nested? name) (s.places ref) c := by
  rw [findContainer, Except.mapError_eq_ok, search_eq_ok_iff]

/-- In a scope, the type and the container of a name are those of the first place that has one: the
longest leading part of the scope that is a package, the most segments walked from it. Where no
place has one, the failure tells of every leading part that is no package and of every place in one
that is, in that order. -/
theorem search_finds_first_match (s : PackageStore) (ref : PackageRef) (name : String) :
    (∀ id, s.findType ref name = .ok id ↔ Place.FirstHas (·.type? name) (s.places ref) id) ∧
    (∀ e, s.findType ref name = .error e ↔
      (∀ place ∈ s.places ref, ∀ id, ¬ place.Has (·.type? name) id) ∧
        e = .unresolvedType name ref.toText ((s.places ref).map Place.attempt)) ∧
    (∀ c, s.findContainer ref name = .ok c ↔
      Place.FirstHas (·.nested? name) (s.places ref) c) ∧
    ∀ e, s.findContainer ref name = .error e ↔
      (∀ place ∈ s.places ref, ∀ c, ¬ place.Has (·.nested? name) c) ∧
        e = .unresolvedContainer name ref.toText ((s.places ref).map Place.attempt) := by
  exact ⟨fun id => findType_eq_ok_iff, fun e => mapError_search_eq_error_iff,
    fun c => findContainer_eq_ok_iff, fun e => mapError_search_eq_error_iff⟩

end PackageStore

end ComponentAbi
