import ComponentAbi.Proofs.Loading.Mirror
import ComponentAbi.Proofs.Loading.Steps

/-!
# Types as they are written

A node stands for a written type (`TypeArena.Denotes`) if it has the shape that is written, with
nodes for the parts; a name that is no keyword is a reference from the scope it is written in.
Loading a written type adds a node that stands for it (`LoadM.denotes_typeExpr`), and it goes on to
do so in any arena with more nodes.
-/

namespace ComponentAbi

theorem TypeNode.ne_resource_of_ofKeyword? {keyword : String} {node : TypeNode}
    (h : ofKeyword? keyword = some node) : ∀ r, node ≠ .resource r := by
  rw [ofKeyword?] at h
  split at h
  · cases h
    simp
  · obtain ⟨s, -, rfl⟩ := Option.map_eq_some_iff.1 h
    simp

namespace TypeArena

variable {a b : TypeArena} {scope : PackageRef}

/-- The node stands for the type of a name. -/
def DenotesName (a : TypeArena) (scope : PackageRef) (name : String) (id : TypeId) : Prop :=
  match TypeNode.ofKeyword? name with
  | some node => a.get? id = some node
  | none =>
    if name = "result" then a.get? id = some (.result none none)
    else ∃ origin, splitReference scope name = .ok origin ∧
      a.get? id = some (.reference (.named origin.1 origin.2))

mutual

/-- The node stands for the written type. -/
def Denotes (a : TypeArena) (scope : PackageRef) : TypeExpr → TypeId → Prop
  | .name text, id => a.DenotesName scope text id
  | .list element, id => ∃ x, a.get? id = some (.list x) ∧ Denotes a scope element x
  | .option payload, id => ∃ x, a.get? id = some (.option x) ∧ Denotes a scope payload x
  | .tuple elements, id => ∃ xs, a.get? id = some (.tuple xs) ∧ DenotesAll a scope elements xs
  | .result ok err, id => ∃ x y, a.get? id = some (.result x y) ∧ DenotesOptional a scope ok x ∧
      DenotesOptional a scope err y
  | .borrow resource, id => ∃ x, a.get? id = some (.borrow x) ∧ a.DenotesName scope resource x
  | .own resource, id => a.DenotesName scope resource id
  | .stream element, id => ∃ x, a.get? id = some (.stream x) ∧ DenotesOptional a scope element x
  | .future value, id => ∃ x, a.get? id = some (.future x) ∧ DenotesOptional a scope value x
  | .func ⟨params, results⟩, id => ∃ f, a.get? id = some (.function f) ∧
      DenotesFields a scope params f.params ∧ DenotesAll a scope results f.results
  | .interface reference, id => ∃ origin, splitReference scope reference = .ok origin ∧
      a.get? id = some (.interface { package := origin.1, name := origin.2 })
termination_by structural e => e

/-- The nodes stand for the written types, in order. -/
def DenotesAll (a : TypeArena) (scope : PackageRef) : List TypeExpr → List TypeId → Prop
  | [], [] => True
  | e :: es, id :: ids => Denotes a scope e id ∧ DenotesAll a scope es ids
  | _, _ => False
termination_by structural es => es

/-- The nodes stand for the written types of the same names, in order. -/
def DenotesFields (a : TypeArena) (scope : PackageRef) :
    List (String × TypeExpr) → List (String × TypeId) → Prop
  | [], [] => True
  | (name, e) :: es, (label, id) :: ids =>
    label = name ∧ Denotes a scope e id ∧ DenotesFields a scope es ids
  | _, _ => False
termination_by structural es => es

/-- The node stands for the written type; there are both or neither. -/
def DenotesOptional (a : TypeArena) (scope : PackageRef) : Option TypeExpr → Option TypeId → Prop
  | none, none => True
  | some e, some id => Denotes a scope e id
  | _, _ => False
termination_by structural e => e

end

/-- All nodes are in the second arena as well; resources, which are completed after they were added,
may have got their functions there. -/
structure KeepsShapes (a b : TypeArena) : Prop where
  /-- Other nodes are the same. -/
  shapes : ∀ ⦃id node⦄, a.get? id = some node → (∀ r, node ≠ .resource r) → b.get? id = some node
  /-- Resources have the same names. -/
  resources : ∀ ⦃id r⦄, a.get? id = some (.resource r) →
    ∃ r', b.get? id = some (.resource r') ∧ r'.name = r.name

theorem Extends.keepsShapes (h : a.Extends b) : a.KeepsShapes b where
  shapes _ _ hid _ := h hid
  resources _ r hid := ⟨r, h hid, rfl⟩

theorem DenotesName.extend {name : String} {id : TypeId} (h : a.KeepsShapes b)
    (hid : a.DenotesName scope name id) : b.DenotesName scope name id := by
  unfold DenotesName at *
  split at hid
  · rename_i node hkeyword
    exact h.shapes hid (TypeNode.ne_resource_of_ofKeyword? hkeyword)
  · by_cases hresult : name = "result"
    · rw [if_pos hresult] at *
      exact h.shapes hid (by simp)
    · rw [if_neg hresult] at *
      obtain ⟨origin, horigin, hid⟩ := hid
      exact ⟨origin, horigin, h.shapes hid (by simp)⟩

mutual

/-- What stands for a type does so where there are more nodes. -/
theorem Denotes.extend (h : a.KeepsShapes b) :
    ∀ {e id}, a.Denotes scope e id → b.Denotes scope e id
  | .name _, _, hid => DenotesName.extend h hid
  | .list _, _, ⟨x, hid, hx⟩ => ⟨x, h.shapes hid (by simp), Denotes.extend h hx⟩
  | .option _, _, ⟨x, hid, hx⟩ => ⟨x, h.shapes hid (by simp), Denotes.extend h hx⟩
  | .tuple _, _, ⟨xs, hid, hxs⟩ => ⟨xs, h.shapes hid (by simp), DenotesAll.extend h hxs⟩
  | .result _ _, _, ⟨x, y, hid, hx, hy⟩ =>
    ⟨x, y, h.shapes hid (by simp), DenotesOptional.extend h hx, DenotesOptional.extend h hy⟩
  | .borrow _, _, ⟨x, hid, hx⟩ => ⟨x, h.shapes hid (by simp), hx.extend h⟩
  | .own _, _, hid => DenotesName.extend h hid
  | .stream _, _, ⟨x, hid, hx⟩ => ⟨x, h.shapes hid (by simp), DenotesOptional.extend h hx⟩
  | .future _, _, ⟨x, hid, hx⟩ => ⟨x, h.shapes hid (by simp), DenotesOptional.extend h hx⟩
  | .func ⟨_, _⟩, _, ⟨f, hid, hparams, hresults⟩ =>
    ⟨f, h.shapes hid (by simp), DenotesFields.extend h hparams, DenotesAll.extend h hresults⟩
  | .interface _, _, ⟨origin, horigin, hid⟩ => ⟨origin, horigin, h.shapes hid (by simp)⟩
termination_by structural e => e

theorem DenotesAll.extend (h : a.KeepsShapes b) :
    ∀ {es ids}, a.DenotesAll scope es ids → b.DenotesAll scope es ids
  | [], [], _ => trivial
  | _ :: _, _ :: _, ⟨hid, hids⟩ => ⟨Denotes.extend h hid, DenotesAll.extend h hids⟩
termination_by structural es => es

theorem DenotesFields.extend (h : a.KeepsShapes b) :
    ∀ {es ids}, a.DenotesFields scope es ids → b.DenotesFields scope es ids
  | [], [], _ => trivial
  | (_, _) :: _, (_, _) :: _, ⟨hname, hid, hids⟩ =>
    ⟨hname, Denotes.extend h hid, DenotesFields.extend h hids⟩
termination_by structural es => es

theorem DenotesOptional.extend (h : a.KeepsShapes b) :
    ∀ {e id}, a.DenotesOptional scope e id → b.DenotesOptional scope e id
  | none, none, _ => trivial
  | some _, some _, hid => Denotes.extend h hid
termination_by structural e => e

end

end TypeArena

namespace LoadM

variable {α : Type} {p q : Project} {scope : PackageRef} {a : α} {x : LoadM α}

/-- A step that does the same at every place leaves what is there. -/
theorem extends_of_mirrors {y : LoadM α} {r : (TypeId → TypeId) → α → α}
    (h : ∀ ρ, Mirrors 0 p ρ x y (r ρ)) (hgives : x.Gives p a q) :
    p.arena.Extends q.arena ∧ q.store = p.store := by
  obtain ⟨-, hrun⟩ := h (TypeId.shift p.arena.size) {} (Nat.zero_le _)
  rw [Project.above_empty] at hrun
  rw [Gives, hrun fun _ _ => rfl] at hgives
  obtain ⟨-, rfl⟩ := Prod.mk.inj hgives
  refine ⟨fun id node hid => ?_, rfl⟩
  simp only [Project.above, TypeArena.get?] at *
  rw [Array.getElem?_append_left (Array.getElem?_eq_some_iff.1 hid).1, hid]

theorem extends_typeExpr {e : TypeExpr} {id : TypeId} (h : (typeExpr scope e).Gives p id q) :
    p.arena.Extends q.arena :=
  (extends_of_mirrors (fun _ => mirrors_typeExpr 0 scope e) h).1

theorem extends_typeExprs {es : List TypeExpr} {ids : List TypeId}
    (h : (typeExprs scope es).Gives p ids q) : p.arena.Extends q.arena :=
  (extends_of_mirrors (fun _ => mirrors_typeExprs 0 scope es) h).1

theorem extends_namedTypes {es : List (String × TypeExpr)} {ids : List (String × TypeId)}
    (h : (namedTypes scope es).Gives p ids q) : p.arena.Extends q.arena :=
  (extends_of_mirrors (fun _ => mirrors_namedTypes 0 scope es) h).1

theorem extends_optionalType {e : Option TypeExpr} {id : Option TypeId}
    (h : (optionalType scope e).Gives p id q) : p.arena.Extends q.arena :=
  (extends_of_mirrors (fun _ => mirrors_optionalType 0 scope e) h).1

/-- The node of a new id. -/
theorem get?_of_gives_alloc {node : TypeNode} {id : TypeId} (h : (alloc node).Gives p id q) :
    p.arena.Extends q.arena ∧ q.arena.get? id = some node := by
  obtain ⟨rfl, rfl⟩ := gives_alloc.1 h
  exact ⟨TypeArena.extends_alloc _ _, TypeArena.get?_alloc_new _ _⟩

theorem denotes_namedType {name : String} {id : TypeId} (h : (namedType scope name).Gives p id q) :
    q.arena.DenotesName scope name id := by
  unfold namedType at h
  unfold TypeArena.DenotesName
  cases hkeyword : TypeNode.ofKeyword? name with
  | some node =>
    rw [hkeyword] at h
    exact (get?_of_gives_alloc h).2
  | none =>
    rw [hkeyword] at h
    by_cases hresult : name = "result"
    · simp only [if_pos hresult] at h ⊢
      exact (get?_of_gives_alloc h).2
    · simp only [if_neg hresult] at h ⊢
      obtain ⟨origin, horigin, h⟩ := gives_bind_liftM.1 h
      exact ⟨origin, horigin, (get?_of_gives_alloc h).2⟩

mutual

/-- Adding a written type gives a node that stands for it. -/
theorem denotes_typeExpr : ∀ {e id p q}, (typeExpr scope e).Gives p id q →
    q.arena.Denotes scope e id
  | .name _, _, _, _, h => denotes_namedType h
  | .list _, _, _, _, h => by
    obtain ⟨x, mid, hx, h⟩ := gives_bind.1 h
    obtain ⟨hextends, hid⟩ := get?_of_gives_alloc h
    exact ⟨x, hid, (denotes_typeExpr hx).extend hextends.keepsShapes⟩
  | .option _, _, _, _, h => by
    obtain ⟨x, mid, hx, h⟩ := gives_bind.1 h
    obtain ⟨hextends, hid⟩ := get?_of_gives_alloc h
    exact ⟨x, hid, (denotes_typeExpr hx).extend hextends.keepsShapes⟩
  | .tuple _, _, _, _, h => by
    obtain ⟨xs, mid, hxs, h⟩ := gives_bind.1 h
    obtain ⟨hextends, hid⟩ := get?_of_gives_alloc h
    exact ⟨xs, hid, (denotes_typeExprs hxs).extend hextends.keepsShapes⟩
  | .result _ _, _, _, _, h => by
    obtain ⟨x, mid, hx, h⟩ := gives_bind.1 h
    obtain ⟨y, mid', hy, h⟩ := gives_bind.1 h
    obtain ⟨hextends, hid⟩ := get?_of_gives_alloc h
    have hkeeps := ((extends_optionalType hy).trans hextends).keepsShapes
    exact ⟨x, y, hid, (denotes_optionalType hx).extend hkeeps,
      (denotes_optionalType hy).extend hextends.keepsShapes⟩
  | .borrow _, _, _, _, h => by
    obtain ⟨x, mid, hx, h⟩ := gives_bind.1 h
    obtain ⟨hextends, hid⟩ := get?_of_gives_alloc h
    exact ⟨x, hid, (denotes_namedType hx).extend hextends.keepsShapes⟩
  | .own _, _, _, _, h => denotes_namedType h
  | .stream _, _, _, _, h => by
    obtain ⟨x, mid, hx, h⟩ := gives_bind.1 h
    obtain ⟨hextends, hid⟩ := get?_of_gives_alloc h
    exact ⟨x, hid, (denotes_optionalType hx).extend hextends.keepsShapes⟩
  | .future _, _, _, _, h => by
    obtain ⟨x, mid, hx, h⟩ := gives_bind.1 h
    obtain ⟨hextends, hid⟩ := get?_of_gives_alloc h
    exact ⟨x, hid, (denotes_optionalType hx).extend hextends.keepsShapes⟩
  | .func ⟨_, _⟩, _, _, _, h => by
    obtain ⟨params, mid, hparams, h⟩ := gives_bind.1 h
    obtain ⟨results, mid', hresults, h⟩ := gives_bind.1 h
    obtain ⟨hextends, hid⟩ := get?_of_gives_alloc h
    have hkeeps := ((extends_typeExprs hresults).trans hextends).keepsShapes
    exact ⟨_, hid, (denotes_namedTypes hparams).extend hkeeps,
      (denotes_typeExprs hresults).extend hextends.keepsShapes⟩
  | .interface _, _, _, _, h => by
    obtain ⟨origin, horigin, h⟩ := gives_bind_liftM.1 h
    exact ⟨origin, horigin, (get?_of_gives_alloc h).2⟩
termination_by structural e => e

theorem denotes_typeExprs : ∀ {es ids p q}, (typeExprs scope es).Gives p ids q →
    q.arena.DenotesAll scope es ids
  | [], _, _, _, h => by
    obtain ⟨rfl, -⟩ := gives_pure.1 h
    trivial
  | _ :: _, _, _, _, h => by
    obtain ⟨id, mid, hid, h⟩ := gives_bind.1 h
    obtain ⟨ids, mid', hids, h⟩ := gives_bind.1 h
    obtain ⟨rfl, rfl⟩ := gives_pure.1 h
    exact ⟨(denotes_typeExpr hid).extend (extends_typeExprs hids).keepsShapes,
      denotes_typeExprs hids⟩
termination_by structural es => es

theorem denotes_namedTypes : ∀ {es ids p q}, (namedTypes scope es).Gives p ids q →
    q.arena.DenotesFields scope es ids
  | [], _, _, _, h => by
    obtain ⟨rfl, -⟩ := gives_pure.1 h
    trivial
  | (_, _) :: _, _, _, _, h => by
    obtain ⟨id, mid, hid, h⟩ := gives_bind.1 h
    obtain ⟨ids, mid', hids, h⟩ := gives_bind.1 h
    obtain ⟨rfl, rfl⟩ := gives_pure.1 h
    exact ⟨rfl, (denotes_typeExpr hid).extend (extends_namedTypes hids).keepsShapes,
      denotes_namedTypes hids⟩
termination_by structural es => es

theorem denotes_optionalType : ∀ {e id p q}, (optionalType scope e).Gives p id q →
    q.arena.DenotesOptional scope e id
  | none, _, _, _, h => by
    obtain ⟨rfl, -⟩ := gives_pure.1 h
    trivial
  | some _, _, _, _, h => by
    obtain ⟨id, mid, hid, h⟩ := gives_bind.1 h
    obtain ⟨rfl, rfl⟩ := gives_pure.1 h
    exact denotes_typeExpr hid
termination_by structural e => e

end

end LoadM

end ComponentAbi
