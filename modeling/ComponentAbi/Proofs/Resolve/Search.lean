import ComponentAbi.Resolver
import ComponentAbi.Proofs.Names.Order

/-!
# Finding a name in its package

A search finds what the package itself has (`PackageStore.search_here`). From a scope inside a
package that is no package of its own, it finds what the container of that name has
(`PackageStore.search_inside`).
-/

namespace ComponentAbi

namespace PackageStore

variable {α : Type} {s : PackageStore} {name : PackageName} {version : Option Version}
  {contents : PackageContents} {probe : Container → Option α} {found : α}

theorem lookup_eq_ok {ref : PackageRef} :
    s.lookup ref = .ok contents ↔ s.contents? ref = some contents := by
  rw [lookup]
  cases s.contents? ref <;> simp

/-- The spelling of a version does not matter. -/
theorem lookup_of_same {v w : Version} (h : v.same w)
    (hv : s.lookup { name, version := some v } = .ok contents) :
    s.lookup { name, version := some w } = .ok contents := by
  rw [lookup_eq_ok] at hv ⊢
  rwa [← contents?_of_same h]

theorem lookup_of_find?_eq_none (h : s.find? name = none) :
    s.lookup { name, version } =
      .error (.unknownPackage ({ name, version } : PackageRef).toText) := by
  simp [lookup, contents?, h]

theorem nested?_package_interface {part : String} {i : Interface}
    (hi : contents.definitions.interfaces.find? part = some i)
    (hworld : contents.worlds.find? part = none) :
    (Container.package contents).nested? part = some (.interface i) := by
  simp [Container.nested?, Container.definitions, hi, hworld]

/-! ### Going outwards -/

variable {visit : PackageRef → List String → Except (List String) α}

theorem outwards_of_ok (h : visit { name, version } [] = .ok found) :
    outwards visit { name, version } = .ok found := by
  obtain ⟨namespaces, path⟩ := name
  rw [outwards]
  cases hrev : path.reverse with
  | nil =>
    obtain rfl := List.reverse_eq_nil_iff.1 hrev
    exact h
  | cons last outer =>
    rw [outwardsFrom]
    have hpath : (last :: outer).reverse = path := by rw [← hrev, List.reverse_reverse]
    simp only [hpath, h]

/-- Where the whole name has nothing, its last segment is cut off. -/
theorem outwards_push {part : String} {attempts : List String} (hpath : name.path ≠ [])
    (hpart : visit { name := name.push part, version } [] = .error attempts)
    (h : visit { name, version } [part] = .ok found) :
    outwards visit { name := name.push part, version } = .ok found := by
  obtain ⟨namespaces, path⟩ := name
  have hrev : (path ++ [part]).reverse = part :: path.reverse := by simp
  have hback : (part :: path.reverse).reverse = path ++ [part] := by simp
  simp only [PackageName.push] at hpart
  rw [outwards]
  simp only [PackageName.push, hrev]
  rw [outwardsFrom]
  simp only [hback, hpart]
  cases houter : path.reverse with
  | nil => exact absurd (List.reverse_eq_nil_iff.1 houter) hpath
  | cons last outer =>
    have hfirst : (last :: outer).reverse = path := by rw [← houter, List.reverse_reverse]
    rw [outwardsFrom]
    simp [hfirst, h, Except.mapError]

/-! ### Searching -/

/-- A search starts in the package that its scope names. -/
theorem search_here (hcontents : s.lookup { name, version } = .ok contents)
    (hfound : probe (.package contents) = some found) :
    s.search probe { name, version } = .ok found := by
  refine outwards_of_ok ?_
  rw [searchPackage, hcontents]
  simp [searchWithin, probeAt, Container.walk?, hfound, Except.mapError]

/-- A search in a scope that is no package goes on in the container of that name. -/
theorem search_inside {part : String} {inner : Container} (hpath : name.path ≠ [])
    (hpart : s.find? (name.push part) = none)
    (hcontents : s.lookup { name, version } = .ok contents)
    (hinner : (Container.package contents).nested? part = some inner)
    (hfound : probe inner = some found) :
    s.search probe { name := name.push part, version } = .ok found := by
  have hmissing : s.searchPackage probe { name := name.push part, version } [] =
      .error [(ResolveError.unknownPackage
        ({ name := name.push part, version } : PackageRef).toText).message] := by
    rw [searchPackage, lookup_of_find?_eq_none hpart]
  refine outwards_push hpath hmissing ?_
  rw [searchPackage, hcontents]
  simp [searchWithin, probeAt, Container.walk?, hinner, hfound]

/-! ### Hops -/

/-- A name that is looked up inside an interface of a package is found there. -/
theorem hop_named {container type : String} {i : Interface} {id : TypeId} (hpath : name.path ≠ [])
    (hcontents : s.lookup { name, version } = .ok contents)
    (hi : contents.definitions.interfaces.find? container = some i)
    (hworld : contents.worlds.find? container = none)
    (hpart : s.find? (name.push container) = none) (ht : i.definitions.types.find? type = some id) :
    s.hop (.named { name := name.push container, version } type) = .ok id := by
  have hsearch : s.search (·.type? type) { name := name.push container, version } = .ok id :=
    search_inside hpath hpart hcontents
      (nested?_package_interface hi hworld) ht
  rw [hop, findType, hsearch]
  rfl

/-- A name that is used from an interface of a package is found there. -/
theorem hop_used {container type : String} {i : Interface} {id : TypeId}
    (hcontents : s.lookup { name, version } = .ok contents)
    (hi : contents.definitions.interfaces.find? container = some i)
    (hworld : contents.worlds.find? container = none)
    (ht : i.definitions.types.find? type = some id) :
    s.hop (.used { name, version } container type) = .ok id := by
  have hsearch : s.search (·.nested? container) { name, version } = .ok (.interface i) :=
    search_here hcontents (nested?_package_interface hi hworld)
  rw [hop, findContainer, hsearch]
  simp only [Container.type?, Container.definitions, Except.mapError, bind, Except.bind, ht]
  rfl

end PackageStore

end ComponentAbi
