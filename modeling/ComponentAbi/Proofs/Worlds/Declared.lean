import ComponentAbi.Proofs.Loading.Denotes
import ComponentAbi.Proofs.Pointwise
import ComponentAbi.Proofs.Worlds.Expansion

/-!
# What interfaces are declared as

The items of an interface declare its functions, and resources with functions of their own
(`Item.memberDecls`). An interface that is loaded has these members and no others, each with the
signature that is written (`Interface.Built`).
-/

namespace ComponentAbi

/-! ### Declarations -/

/-- A function that the items of an interface declare. -/
inductive MemberDecl where
  /-- A function of its own, or a static one of a resource. -/
  | function (decl : FunctionDecl)
  /-- The constructor of a resource. -/
  | constructor (resource : String) (decl : FunctionDecl)
  /-- A method of a resource. -/
  | method (resource : String) (decl : FunctionDecl)
  /-- What gives a resource up. -/
  | drop (resource : String)

namespace Item

/-- The names that an item binds to types. -/
def typeNames : Item → List String
  | record name _ | variant name _ | enum name _ | flags name _ | resource name .. | type name _ =>
    [name]
  | use _ names => names.map fun n => n.2.getD n.1
  | _ => []

/-- The function that an item is, with its name. -/
def functions : Item → List (String × MemberDecl)
  | func name decl => [(name, .function decl)]
  | _ => []

/-- The functions of the resource that an item is, with the names that say so. -/
def attached : Item → List (String × MemberDecl)
  | resource name constructor methods statics =>
    constructor.toList.map (fun decl => ("[constructor]" ++ name, .constructor name decl))
      ++ methods.map (fun x => ("[method]" ++ name ++ "." ++ x.1, .method name x.2))
      ++ statics.map (fun x => ("[static]" ++ name ++ "." ++ x.1, .function x.2))
      ++ [("[resource-drop]" ++ name, .drop name)]
  | _ => []

/-- All functions that the items of an interface declare. -/
def memberDecls (items : List Item) : List (String × MemberDecl) :=
  items.flatMap functions ++ items.flatMap attached

end Item

namespace TypeArena

variable {a b : TypeArena} {scope : PackageRef}

/-- The parameters and results are the written ones. -/
def DenotesSignature (a : TypeArena) (scope : PackageRef) (decl : FunctionDecl) (f : FunctionType) :
    Prop :=
  a.DenotesFields scope decl.params f.params ∧ a.DenotesAll scope decl.results f.results

/-- The node is the resource of a name. -/
def IsResource (a : TypeArena) (scope : PackageRef) (name : String) (id : TypeId) : Prop :=
  ∃ r, a.get? id = some (.resource r) ∧ r.name = { package := scope, name }

/-- The node is the declared function. A constructor returns the resource, a method takes it
borrowed as its first parameter, and giving it up takes it owned. -/
def DenotesMember (a : TypeArena) (scope : PackageRef) : MemberDecl → TypeId → Prop
  | .function decl, func => ∃ f, a.DenotesSignature scope decl f ∧ a.get? func = some (.function f)
  | .constructor resource decl, func => ∃ id f, a.IsResource scope resource id ∧
      a.DenotesSignature scope decl f ∧ a.get? func = some (.function { f with results := [id] })
  | .method resource decl, func => ∃ id self f, a.IsResource scope resource id ∧
      a.get? self = some (.borrow id) ∧ a.DenotesSignature scope decl f ∧
      a.get? func = some (.function { f with params := ("self", self) :: f.params })
  | .drop resource, func => ∃ id, a.IsResource scope resource id ∧
      a.get? func = some (.function { params := [("self", id)], results := [] })

/-- The name and the function are as declared. -/
def Fits (a : TypeArena) (scope : PackageRef) (x : String × MemberDecl) (y : String × TypeId) :
    Prop :=
  y.1 = x.1 ∧ a.DenotesMember scope x.2 y.2

/-- The node is the declared resource, with all its functions. -/
def DenotesResource (a : TypeArena) (scope : PackageRef) (item : Item) (name : String)
    (id : TypeId) :
    Prop :=
  ∃ r, a.get? id = some (.resource r) ∧
    List.Forall₂ (a.Fits scope) item.attached (Project.resourceFunctions name r)

/-- The name is bound to what the item declares, as far as this has functions. -/
def Binds (a : TypeArena) (scope : PackageRef) : Item → String × TypeId → Prop
  | .resource name constructor methods statics, x =>
    a.DenotesResource scope (.resource name constructor methods statics) x.1 x.2
  | _, x => ∃ node, a.get? x.2 = some node ∧ ∀ r, node ≠ .resource r

/-- The names that the item declares are bound. -/
def BindsAll (a : TypeArena) (scope : PackageRef) (item : Item) (bound : List (String × TypeId)) :
    Prop :=
  bound.map (·.1) = item.typeNames ∧ ∀ x ∈ bound, a.Binds scope item x

/-! ### Growth -/

theorem DenotesSignature.extend {decl : FunctionDecl} {f : FunctionType} (h : a.KeepsShapes b)
    (hf : a.DenotesSignature scope decl f) : b.DenotesSignature scope decl f :=
  ⟨hf.1.extend h, hf.2.extend h⟩

theorem IsResource.extend {name : String} {id : TypeId} (h : a.KeepsShapes b)
    (hid : a.IsResource scope name id) : b.IsResource scope name id :=
  let ⟨_, hr, hname⟩ := hid
  let ⟨r', hr', hname'⟩ := h.resources hr
  ⟨r', hr', hname'.trans hname⟩

theorem DenotesMember.extend (h : a.KeepsShapes b) {m : MemberDecl} {func : TypeId}
    (hm : a.DenotesMember scope m func) : b.DenotesMember scope m func := by
  cases m with
  | function decl =>
    obtain ⟨f, hf, hfunc⟩ := hm
    exact ⟨f, hf.extend h, h.shapes hfunc (by simp)⟩
  | constructor resource decl =>
    obtain ⟨id, f, hid, hf, hfunc⟩ := hm
    exact ⟨id, f, hid.extend h, hf.extend h, h.shapes hfunc (by simp)⟩
  | method resource decl =>
    obtain ⟨id, self, f, hid, hself, hf, hfunc⟩ := hm
    exact ⟨id, self, f, hid.extend h, h.shapes hself (by simp), hf.extend h,
      h.shapes hfunc (by simp)⟩
  | drop resource =>
    obtain ⟨id, hid, hfunc⟩ := hm
    exact ⟨id, hid.extend h, h.shapes hfunc (by simp)⟩

theorem forall₂_fits_extend (h : a.KeepsShapes b) {xs : List (String × MemberDecl)}
    {ys : List (String × TypeId)} (hxs : List.Forall₂ (a.Fits scope) xs ys) :
    List.Forall₂ (b.Fits scope) xs ys :=
  hxs.imp fun _ _ hfit => ⟨hfit.1, hfit.2.extend h⟩

theorem Binds.extend (h : a.Extends b) {item : Item} {x : String × TypeId}
    (hx : a.Binds scope item x) : b.Binds scope item x := by
  cases item with
  | resource name constructor methods statics =>
    obtain ⟨r, hr, hfits⟩ := hx
    exact ⟨r, h hr, forall₂_fits_extend h.keepsShapes hfits⟩
  | _ =>
    obtain ⟨node, hnode, hne⟩ := hx
    exact ⟨node, h hnode, hne⟩

theorem BindsAll.extend (h : a.Extends b) {item : Item} {bound : List (String × TypeId)}
    (hbound : a.BindsAll scope item bound) : b.BindsAll scope item bound :=
  ⟨hbound.1, fun x hx => (hbound.2 x hx).extend h⟩

/-- A written type is never a resource itself. -/
theorem Denotes.exists_node {e : TypeExpr} {id : TypeId} (h : a.Denotes scope e id) :
    ∃ node, a.get? id = some node ∧ ∀ r, node ≠ .resource r := by
  have hname {name : String} (h : a.DenotesName scope name id) :
      ∃ node, a.get? id = some node ∧ ∀ r, node ≠ .resource r := by
    unfold DenotesName at h
    split at h
    · rename_i node hkeyword
      exact ⟨node, h, TypeNode.ne_resource_of_ofKeyword? hkeyword⟩
    · split at h
      · exact ⟨.result none none, h, by simp⟩
      · obtain ⟨origin, -, hid⟩ := h
        exact ⟨.reference (.named origin.1 origin.2), hid, by simp⟩
  cases e with
  | name text => exact hname h
  | own resource => exact hname h
  | list element | option payload | borrow resource | tuple elements =>
    obtain ⟨_, hid, -⟩ := h
    exact ⟨_, hid, by simp⟩
  | stream element | future value =>
    obtain ⟨_, hid, -⟩ := h
    exact ⟨_, hid, by simp⟩
  | func decl =>
    obtain ⟨params, results⟩ := decl
    obtain ⟨_, hid, -⟩ := h
    exact ⟨_, hid, by simp⟩
  | result ok err =>
    obtain ⟨_, _, hid, -⟩ := h
    exact ⟨_, hid, by simp⟩
  | interface reference =>
    obtain ⟨_, -, hid⟩ := h
    exact ⟨_, hid, by simp⟩

end TypeArena

/-! ### Loading functions and resources -/

namespace LoadM

variable {α β : Type} {p q : Project} {scope : PackageRef}

/-- Steps that each add one declared function, where a base that they rely on is there. -/
theorem forall₂_of_gives_mapM (scope : PackageRef) (base : TypeArena) (name : α → String)
    (member : α → MemberDecl) {f : α → LoadM NamedFunction}
    (hstep : ∀ x p y q, base.Extends p.arena → (f x).Gives p y q →
      p.arena.Extends q.arena ∧ y.name = name x ∧ q.arena.DenotesMember scope (member x) y.func)
    {xs : List α} {ys : List NamedFunction} (hbase : base.Extends p.arena)
    (h : (xs.mapM f).Gives p ys q) : p.arena.Extends q.arena ∧ List.Forall₂
      (fun x y => y.name = name x ∧ q.arena.DenotesMember scope (member x) y.func) xs ys := by
  induction xs generalizing p ys with
  | nil =>
    obtain ⟨rfl, rfl⟩ := gives_mapM_nil.1 h
    exact ⟨.refl _, .nil⟩
  | cons x rest ih =>
    obtain ⟨y, mid, ys, hy, hys, rfl⟩ := gives_mapM_cons.1 h
    obtain ⟨hfirst, hname, hm⟩ := hstep x p y mid hbase hy
    obtain ⟨hrest, hall⟩ := ih (hbase.trans hfirst) hys
    exact ⟨hfirst.trans hrest, .cons ⟨hname, hm.extend hrest.keepsShapes⟩ hall⟩

theorem denotes_functionType {decl : FunctionDecl} {f : FunctionType}
    (h : (functionType scope decl).Gives p f q) :
    p.arena.Extends q.arena ∧ q.arena.DenotesSignature scope decl f := by
  obtain ⟨params, mid, hparams, h⟩ := gives_bind.1 h
  obtain ⟨results, mid', hresults, h⟩ := gives_bind.1 h
  obtain ⟨rfl, rfl⟩ := gives_pure.1 h
  have hextends := extends_typeExprs hresults
  exact ⟨(extends_namedTypes hparams).trans hextends,
    (denotes_namedTypes hparams).extend hextends.keepsShapes, denotes_typeExprs hresults⟩

/-- A function of a resource or interface is added after the types of its declaration. -/
theorem gives_function {decl : FunctionDecl} {f : NamedFunction} (name : String)
    (node : FunctionType → TypeNode) (h : (do
      let f ← functionType scope decl
      return ({ name, func := ← alloc (node f) } : NamedFunction)).Gives p f q) :
    p.arena.Extends q.arena ∧ f.name = name ∧
      ∃ type, q.arena.DenotesSignature scope decl type ∧ q.arena.get? f.func = some (node type) := by
  obtain ⟨type, mid, htype, h⟩ := gives_bind.1 h
  obtain ⟨func, mid', hfunc, h⟩ := gives_bind.1 h
  obtain ⟨rfl, rfl⟩ := gives_pure.1 h
  obtain ⟨hextends, hnode⟩ := get?_of_gives_alloc hfunc
  obtain ⟨htypes, hsignature⟩ := denotes_functionType htype
  exact ⟨htypes.trans hextends, rfl, type, hsignature.extend hextends.keepsShapes, hnode⟩

theorem fits_namedFunction {name : String} {decl : FunctionDecl} {f : NamedFunction}
    (h : (namedFunction scope name decl).Gives p f q) :
    p.arena.Extends q.arena ∧ q.arena.Fits scope (name, .function decl) (f.name, f.func) := by
  have h' : (do
      let type ← functionType scope decl
      return ({ name, func := ← alloc (.function type) } : NamedFunction)).Gives p f q := by
    obtain ⟨func, mid, hfunc, h⟩ := gives_bind.1 h
    obtain ⟨type, mid', htype, hfunc⟩ := gives_bind.1 hfunc
    exact gives_bind.2 ⟨type, mid', htype, gives_bind.2 ⟨func, mid, hfunc, h⟩⟩
  obtain ⟨hextends, hname, type, hsignature, hnode⟩ := gives_function name .function h'
  exact ⟨hextends, hname, type, hsignature, hnode⟩

/-- Completing a resource keeps its name and everything else. -/
theorem keepsShapes_of_gives_replace {id : TypeId} {r r' : ResourceType} {u : Unit}
    (hr : p.arena.get? id = some (.resource r)) (hname : r'.name = r.name)
    (h : (replace id (.resource r')).Gives p u q) :
    q.arena.get? id = some (.resource r') ∧ p.arena.KeepsShapes q.arena := by
  cases h
  have hget (other : TypeId) : (p.arena.replace id (.resource r')).2.get? other =
      if other = id then some (.resource r') else p.arena.get? other := by
    have hlt := TypeArena.index_lt_of_get? hr
    obtain ⟨i⟩ := id
    obtain ⟨j⟩ := other
    simp only [TypeArena.get?, TypeArena.replace, Array.getElem?_setIfInBounds, TypeId.mk.injEq,
      eq_comm (a := j)]
    split
    · exact if_pos hlt
    · rfl
  refine ⟨by rw [hget, if_pos rfl], fun other node hnode hne => ?_, fun other old hold => ?_⟩
  · have hother : other ≠ id := by
      rintro rfl
      exact hne r (Option.some.inj (hnode.symm.trans hr))
    rw [hget, if_neg hother, hnode]
  · by_cases hother : other = id
    · subst hother
      cases hold.symm.trans hr
      exact ⟨r', by rw [hget, if_pos rfl], hname⟩
    · exact ⟨old, by rw [hget, if_neg hother, hold], rfl⟩

theorem denotes_resource {name : String} {constructor : Option FunctionDecl}
    {methods statics : List (String × FunctionDecl)} {id : TypeId}
    (h : (resource scope name constructor methods statics).Gives p id q) :
    q.arena.DenotesResource scope (.resource name constructor methods statics) name id := by
  obtain ⟨id, p₁, hid, h⟩ := gives_bind.1 h
  obtain ⟨borrowed, base, hborrowed, h⟩ := gives_bind.1 h
  obtain ⟨cs, p₃, hcs, h⟩ := gives_bind.1 h
  obtain ⟨ms, p₄, hms, h⟩ := gives_bind.1 h
  obtain ⟨ss, p₅, hss, h⟩ := gives_bind.1 h
  obtain ⟨drop, p₆, hdrop, h⟩ := gives_bind.1 h
  obtain ⟨_, p₇, hreplace, h⟩ := gives_bind.1 h
  obtain ⟨rfl, rfl⟩ := gives_pure.1 h
  obtain ⟨-, hid⟩ := get?_of_gives_alloc hid
  obtain ⟨hextends, hborrowed⟩ := get?_of_gives_alloc hborrowed
  have hid := hextends hid
  -- The resource and the handle are there while its functions are added.
  have hresource {a : TypeArena} (ha : base.arena.Extends a) : a.IsResource scope name id :=
    ⟨_, ha hid, rfl⟩
  obtain ⟨h₃, hcs⟩ := forall₂_of_gives_mapM scope base.arena (fun _ => name) (.constructor name)
    (fun decl p f q hp hf => by
      obtain ⟨hq, hname, type, htype, hnode⟩ := gives_function name
        (fun f => .function { f with results := [id] }) hf
      exact ⟨hq, hname, id, type, hresource (hp.trans hq), htype, hnode⟩) (.refl _) hcs
  obtain ⟨h₄, hms⟩ := forall₂_of_gives_mapM scope base.arena Prod.fst (fun x => .method name x.2)
    (fun x p f q hp hf => by
      obtain ⟨hq, hname, type, htype, hnode⟩ := gives_function x.1
        (fun f => .function { f with params := ("self", borrowed) :: f.params }) hf
      exact ⟨hq, hname, id, borrowed, type, hresource (hp.trans hq), hp.trans hq hborrowed, htype,
        hnode⟩) h₃ hms
  obtain ⟨h₅, hss⟩ := forall₂_of_gives_mapM scope base.arena Prod.fst (fun x => .function x.2)
    (fun x p f q _ hf => fits_namedFunction hf) (h₃.trans h₄) hss
  obtain ⟨h₆, hdrop⟩ := get?_of_gives_alloc hdrop
  have hbase := ((h₃.trans h₄).trans h₅).trans h₆
  obtain ⟨hdone, hkeeps⟩ := keepsShapes_of_gives_replace (hbase hid) (by rfl) hreplace
  refine ⟨_, hdone, TypeArena.forall₂_fits_extend hkeeps ?_⟩
  have hdropped : p₆.arena.DenotesMember scope (.drop name) drop := ⟨id, hresource hbase, hdrop⟩
  have h₅₆ := h₆.keepsShapes
  have h₄₆ := (h₅.trans h₆).keepsShapes
  have h₃₆ := ((h₄.trans h₅).trans h₆).keepsShapes
  refine List.rel_append (List.rel_append (List.rel_append ?_ ?_) ?_) (.cons ⟨rfl, hdropped⟩ .nil)
  · refine List.forall₂_map_left_iff.2 (List.forall₂_map_right_iff.2 (hcs.imp fun decl f hf => ?_))
    exact ⟨rfl, hf.2.extend h₃₆⟩
  · refine List.forall₂_map_left_iff.2 (List.forall₂_map_right_iff.2 (hms.imp fun x f hf => ?_))
    exact ⟨by rw [hf.1], hf.2.extend h₄₆⟩
  · refine List.forall₂_map_left_iff.2 (List.forall₂_map_right_iff.2 (hss.imp fun x f hf => ?_))
    exact ⟨by rw [hf.1], hf.2.extend h₅₆⟩

/-! ### Loading items of an interface -/

theorem gives_useNames {package : PackageRef} {container : String}
    {names : List (String × Option String)} {used : List UseName}
    (h : (names.mapM fun (x : String × Option String) => do
      let type ← alloc (.reference (.used package container x.1))
      return ({ name := x.1, bound := x.2.getD x.1, type } : UseName)).Gives p used q) :
    p.arena.Extends q.arena ∧ used.map (·.bound) = names.map (fun n => n.2.getD n.1) ∧
      ∀ n ∈ used, ∃ r, q.arena.get? n.type = some (.reference r) := by
  induction names generalizing p used with
  | nil =>
    obtain ⟨rfl, rfl⟩ := gives_mapM_nil.1 h
    exact ⟨.refl _, rfl, by simp⟩
  | cons name rest ih =>
    obtain ⟨n, mid, more, hn, hmore, rfl⟩ := gives_mapM_cons.1 h
    obtain ⟨type, mid', htype, hn⟩ := gives_bind.1 hn
    obtain ⟨rfl, rfl⟩ := gives_pure.1 hn
    obtain ⟨hextends, hnode⟩ := get?_of_gives_alloc htype
    obtain ⟨hrest, hmap, hall⟩ := ih hmore
    exact ⟨hextends.trans hrest, by rw [List.map_cons, List.map_cons, hmap],
      List.forall_mem_cons.2 ⟨⟨_, hrest hnode⟩, hall⟩⟩

theorem gives_use {source : String} {names : List (String × Option String)} {d d' : Definitions}
    (h : (use scope source names d).Gives p d' q) :
    p.arena.Extends q.arena ∧ ∃ bound, q.arena.BindsAll scope (.use source names) bound ∧
      d'.types = d.types.merge ⟨bound⟩ ∧ d'.interfaces = d.interfaces := by
  obtain ⟨⟨package, container⟩, -, h⟩ := gives_bind_liftM.1 h
  obtain ⟨used, mid, hused, h⟩ := gives_bind.1 h
  obtain ⟨rfl, rfl⟩ := gives_pure.1 h
  obtain ⟨hextends, hmap, hall⟩ := gives_useNames hused
  refine ⟨hextends, used.map fun n => (n.bound, n.type), ⟨?_, fun x hx => ?_⟩, ?_, rfl⟩
  · rw [List.map_map]
    exact hmap
  · obtain ⟨n, hn, rfl⟩ := List.mem_map.1 hx
    obtain ⟨r, hr⟩ := hall n hn
    exact ⟨_, hr, by simp⟩
  · rw [NameMap.merge, List.foldl_map]

theorem extends_mapM {f : α → LoadM β}
    (h : ∀ x p y q, (f x).Gives p y q → p.arena.Extends q.arena) {xs : List α} {ys : List β}
    (hxs : (xs.mapM f).Gives p ys q) : p.arena.Extends q.arena := by
  induction xs generalizing p ys with
  | nil =>
    obtain ⟨-, rfl⟩ := gives_mapM_nil.1 hxs
    exact .refl _
  | cons x rest ih =>
    obtain ⟨y, mid, ys, hy, hys, -⟩ := gives_mapM_cons.1 hxs
    exact (h x p y mid hy).trans (ih hys)

/-- A definition binds the names that it declares and nothing else. -/
theorem gives_definition {context : String} {item : Item} {d d' : Definitions}
    (h : (definition scope context d item).Gives p d' q) :
    p.arena.Extends q.arena ∧ ∃ bound, q.arena.BindsAll scope item bound ∧
      d'.types = d.types.merge ⟨bound⟩ ∧ d'.interfaces = d.interfaces := by
  have hone {name : String} {id : TypeId} (hname : item.typeNames = [name])
      (hid : q.arena.Binds scope item (name, id)) :
      ∃ bound, q.arena.BindsAll scope item bound ∧
        d.types.insert name id = d.types.merge ⟨bound⟩ ∧ d.interfaces = d.interfaces :=
    ⟨[(name, id)], ⟨hname.symm, List.forall_mem_singleton.2 hid⟩, rfl, rfl⟩
  unfold definition at h
  cases item with
  | record name fields =>
    obtain ⟨fields, mid, hfields, h⟩ := gives_bind.1 h
    obtain ⟨id, mid', hid, h⟩ := gives_bind.1 h
    obtain ⟨rfl, rfl⟩ := gives_pure.1 h
    obtain ⟨hextends, hnode⟩ := get?_of_gives_alloc hid
    exact ⟨(extends_namedTypes hfields).trans hextends, hone rfl ⟨_, hnode, by simp⟩⟩
  | variant name cases =>
    obtain ⟨cases, mid, hcases, h⟩ := gives_bind.1 h
    obtain ⟨id, mid', hid, h⟩ := gives_bind.1 h
    obtain ⟨rfl, rfl⟩ := gives_pure.1 h
    obtain ⟨hextends, hnode⟩ := get?_of_gives_alloc hid
    refine ⟨(extends_mapM (fun c p y q hc => ?_) hcases).trans hextends,
      hone rfl ⟨_, hnode, by simp⟩⟩
    obtain ⟨type, mid, htype, hc⟩ := gives_bind.1 hc
    obtain ⟨-, rfl⟩ := gives_pure.1 hc
    exact extends_optionalType htype
  | enum name cases =>
    obtain ⟨id, mid, hid, h⟩ := gives_bind.1 h
    obtain ⟨rfl, rfl⟩ := gives_pure.1 h
    obtain ⟨hextends, hnode⟩ := get?_of_gives_alloc hid
    exact ⟨hextends, hone rfl ⟨_, hnode, by simp⟩⟩
  | flags name labels =>
    obtain ⟨id, mid, hid, h⟩ := gives_bind.1 h
    obtain ⟨rfl, rfl⟩ := gives_pure.1 h
    obtain ⟨hextends, hnode⟩ := get?_of_gives_alloc hid
    exact ⟨hextends, hone rfl ⟨_, hnode, by simp⟩⟩
  | resource name constructor methods statics =>
    obtain ⟨id, mid, hid, h⟩ := gives_bind.1 h
    obtain ⟨rfl, rfl⟩ := gives_pure.1 h
    exact ⟨(extends_of_mirrors (fun _ => mirrors_resource name constructor methods statics) hid).1,
      hone rfl (denotes_resource hid)⟩
  | type name type =>
    obtain ⟨id, mid, hid, h⟩ := gives_bind.1 h
    obtain ⟨rfl, rfl⟩ := gives_pure.1 h
    exact ⟨extends_typeExpr hid, hone rfl (denotes_typeExpr hid).exists_node⟩
  | use source names => exact gives_use h
  | interface | world | func | importing | exporting | including => exact (not_gives_throw h).elim

end LoadM

/-- The definitions and functions are those that the items declare. -/
structure Definitions.Built (d : Definitions) (functions : List NamedFunction) (a : TypeArena)
    (scope : PackageRef) (items : List Item) : Prop where
  /-- No interfaces are nested. -/
  interfaces : d.interfaces = {}
  /-- The functions, in order. -/
  functions : List.Forall₂ (a.Fits scope) (items.flatMap Item.functions)
    (functions.map fun f => (f.name, f.func))
  /-- The names of types, each bound to what was declared last. -/
  types : ∃ bounds, List.Forall₂ (a.BindsAll scope) items bounds ∧
    d.types = NameMap.merge {} ⟨bounds.flatten⟩

/-- The names that items bind are the names of what they are bound to. -/
theorem TypeArena.map_flatten_of_bindsAll {a : TypeArena} {scope : PackageRef} {items : List Item}
    {bounds : List (List (String × TypeId))} (h : List.Forall₂ (a.BindsAll scope) items bounds) :
    bounds.flatten.map (·.1) = items.flatMap Item.typeNames := by
  induction h with
  | nil => rfl
  | cons hfirst _ ih => rw [List.flatten_cons, List.map_append, hfirst.1, ih, List.flatMap_cons]

theorem Definitions.Built.extend {d : Definitions} {functions : List NamedFunction} {a b : TypeArena}
    {scope : PackageRef} {items : List Item} (hab : a.Extends b)
    (h : Built d functions a scope items) : Built d functions b scope items where
  interfaces := h.interfaces
  functions := TypeArena.forall₂_fits_extend hab.keepsShapes h.functions
  types :=
    let ⟨bounds, hbounds, htypes⟩ := h.types
    ⟨bounds, hbounds.imp fun _ _ hbound => hbound.extend hab, htypes⟩

namespace LoadM

variable {p q : Project} {scope : PackageRef}

theorem built_interfaceItem {context : String} {done : List Item} {item : Item}
    {parts parts' : Definitions × List NamedFunction}
    (hparts : Definitions.Built parts.1 parts.2 p.arena scope done)
    (h : (interfaceItem scope context parts item).Gives p parts' q) :
    Definitions.Built parts'.1 parts'.2 q.arena scope (done ++ [item]) := by
  have hother (hnone : item.functions = [])
      (h : (do return (← definition scope context parts.1 item, parts.2)).Gives p parts' q) :
      Definitions.Built parts'.1 parts'.2 q.arena scope (done ++ [item]) := by
    obtain ⟨d, mid, hd, h⟩ := gives_bind.1 h
    obtain ⟨rfl, rfl⟩ := gives_pure.1 h
    obtain ⟨hextends, bound, hbound, htypes, hinterfaces⟩ := gives_definition hd
    obtain ⟨bounds, hbounds, hold⟩ := (hparts.extend hextends).types
    refine ⟨hinterfaces.trans hparts.interfaces, ?_, bounds ++ [bound],
      List.rel_append hbounds (.cons hbound .nil), ?_⟩
    · simpa [hnone] using (hparts.extend hextends).functions
    · rw [htypes, hold]
      simp [NameMap.merge, List.foldl_append]
  unfold interfaceItem at h
  cases item with
  | func name decl =>
    obtain ⟨f, mid, hf, h⟩ := gives_bind.1 h
    obtain ⟨rfl, rfl⟩ := gives_pure.1 h
    obtain ⟨hextends, hfits⟩ := fits_namedFunction hf
    have hold := hparts.extend hextends
    obtain ⟨bounds, hbounds, htypes⟩ := hold.types
    refine ⟨hold.interfaces, ?_, bounds ++ [[]],
      List.rel_append hbounds (.cons ⟨rfl, by simp⟩ .nil), by simpa using htypes⟩
    simpa [Item.functions] using List.rel_append hold.functions (.cons hfits .nil)
  | _ => exact hother rfl h

end LoadM

/-- The interface is the declared one. -/
structure Interface.Built (i : Interface) (a : TypeArena) (package : PackageRef) (name : String)
    (items : List Item) : Prop where
  /-- The scope that declares it. -/
  declaredIn : i.package = package
  /-- Its types and functions. -/
  parts : Definitions.Built i.definitions i.functions a (package.push name) items

theorem LoadM.built_interface {p q : Project} {package : PackageRef} {name : String}
    {items : List Item} {i : Interface} (h : (interface package name items).Gives p i q) :
    i.Built q.arena package name items := by
  obtain ⟨parts, mid, hparts, h⟩ := gives_bind.1 h
  obtain ⟨type, mid', htype, h⟩ := gives_bind.1 h
  obtain ⟨rfl, rfl⟩ := gives_pure.1 h
  refine ⟨rfl, Definitions.Built.extend (get?_of_gives_alloc htype).1 ?_⟩
  refine gives_foldlM_induction (P := fun done parts p =>
    Definitions.Built parts.1 parts.2 p.arena (package.push name) done)
    (fun done item parts p parts' q hdone => built_interfaceItem hdone) ?_ hparts
  exact ⟨rfl, .nil, [], .nil, rfl⟩

/-! ### Members are what is declared -/

namespace Interface

variable {i : Interface} {a : TypeArena} {package : PackageRef} {name member : String} {func : TypeId}
  {items : List Item}

theorem member_iff : i.Member a member func ↔
    (member, func) ∈ i.functions.map (fun f => (f.name, f.func)) ∨
      ∃ key id r, (key, id) ∈ i.definitions.types.entries ∧ a.get? id = some (.resource r) ∧
        (member, func) ∈ Project.resourceFunctions key r := by
  constructor
  · intro h
    cases h with
    | function hf => exact .inl (List.mem_map_of_mem hf)
    | constructor hname hr hf =>
      exact .inr ⟨_, _, _, hname, hr, Project.mem_resourceFunctions.2 (.inl ⟨_, hf, rfl⟩)⟩
    | method hname hr hf =>
      exact .inr ⟨_, _, _, hname, hr, Project.mem_resourceFunctions.2 (.inr (.inl ⟨_, hf, rfl⟩))⟩
    | static hname hr hf =>
      exact .inr ⟨_, _, _, hname, hr,
        Project.mem_resourceFunctions.2 (.inr (.inr (.inl ⟨_, hf, rfl⟩)))⟩
    | drop hname hr hf =>
      exact .inr ⟨_, _, _, hname, hr,
        Project.mem_resourceFunctions.2 (.inr (.inr (.inr ⟨_, hf, rfl⟩)))⟩
  · rintro (h | ⟨key, id, r, hname, hr, h⟩)
    · obtain ⟨f, hf, heq⟩ := List.mem_map.1 h
      cases heq
      exact .function hf
    · rcases Project.mem_resourceFunctions.1 h with
        ⟨f, hf, heq⟩ | ⟨f, hf, heq⟩ | ⟨f, hf, heq⟩ | ⟨f, hf, heq⟩ <;> cases heq
      · exact .constructor hname hr hf
      · exact .method hname hr hf
      · exact .static hname hr hf
      · exact .drop hname hr hf

/-- Every member is declared, with its signature. -/
theorem Built.exists_declared (h : i.Built a package name items) (hm : i.Member a member func) :
    ∃ m, (member, m) ∈ Item.memberDecls items ∧ a.DenotesMember (package.push name) m func := by
  rcases member_iff.1 hm with hm | ⟨key, id, r, hname, hr, hm⟩
  · obtain ⟨⟨_, m⟩, hmem, hfits⟩ := exists_left_of_forall₂ h.parts.functions hm
    cases hfits.1
    exact ⟨m, List.mem_append_left _ hmem, hfits.2⟩
  · obtain ⟨bounds, hbounds, htypes⟩ := h.parts.types
    rw [htypes] at hname
    obtain ⟨bound, hbound, hname⟩ := List.mem_flatten.1
      ((NameMap.mem_merge hname).resolve_right List.not_mem_nil)
    obtain ⟨item, hitem, -, hbinds⟩ := exists_left_of_forall₂ hbounds hbound
    have hbinds := hbinds _ hname
    cases item with
    | resource resource constructor methods statics =>
      obtain ⟨r', hr', hfits⟩ := hbinds
      cases hr'.symm.trans hr
      obtain ⟨⟨_, m⟩, hmem, hfits⟩ := exists_left_of_forall₂ hfits hm
      cases hfits.1
      exact ⟨m, List.mem_append_right _ (List.mem_flatMap.2 ⟨_, hitem, hmem⟩), hfits.2⟩
    | _ =>
      obtain ⟨node, hnode, hne⟩ := hbinds
      exact absurd (Option.some.inj (hnode.symm.trans hr)) (hne r)

/-- Every declared function is a member, if no type is bound twice. -/
theorem Built.exists_member (h : i.Built a package name items)
    (hnodup : (items.flatMap Item.typeNames).Nodup) {m : MemberDecl}
    (hm : (member, m) ∈ Item.memberDecls items) :
    ∃ func, i.Member a member func ∧ a.DenotesMember (package.push name) m func := by
  rcases List.mem_append.1 hm with hm | hm
  · obtain ⟨⟨_, func⟩, hmem, hname, hfits⟩ := exists_right_of_forall₂ h.parts.functions hm
    cases hname
    exact ⟨func, member_iff.2 (.inl hmem), hfits⟩
  · obtain ⟨item, hitem, hm⟩ := List.mem_flatMap.1 hm
    cases item with
    | resource resource constructor methods statics =>
      obtain ⟨bounds, hbounds, htypes⟩ := h.parts.types
      obtain ⟨bound, hbound, hnames, hbinds⟩ := exists_right_of_forall₂ hbounds hitem
      have hone : bound.length = 1 := by
        rw [← List.length_map (f := Prod.fst), hnames]
        rfl
      obtain ⟨⟨key, id⟩, rfl⟩ := List.length_eq_one_iff.1 hone
      cases List.singleton_inj.1 hnames
      obtain ⟨r, hr, hfits⟩ := hbinds _ List.mem_cons_self
      obtain ⟨⟨_, func⟩, hmem, hname, hfits⟩ := exists_right_of_forall₂ hfits hm
      cases hname
      refine ⟨func, member_iff.2 (.inr ⟨key, id, r, ?_, hr, hmem⟩), hfits⟩
      rw [htypes]
      have hkeys := TypeArena.map_flatten_of_bindsAll hbounds
      exact NameMap.mem_of_find? (NameMap.find?_merge_of_mem (by rwa [hkeys])
        (List.mem_flatten.2 ⟨_, hbound, List.mem_cons_self⟩))
    | _ => cases hm

end Interface

end ComponentAbi
