import ComponentAbi.Proofs.Loading.Ids
import ComponentAbi.Proofs.Resolve.Chain

/-!
# Loaded graphs are well founded

A node is added after the nodes it is made of, so these have smaller ids. Only the functions of a
resource come after it: the resource is there before them, without functions, and is replaced when
they are done. This holds however far loading gets, also where a document is refused halfway
(`LoadM.Founds`).

So a graph that was loaded has no circles but those through a reference or a function of a resource
(`Project.founded_afterGroups`).
-/

namespace ComponentAbi

/-! ### Founded projects -/

/-- All ids are those of nodes, and a node is made of earlier nodes. -/
structure Project.Founded (p : Project) : Prop where
  /-- A node is made of earlier nodes. -/
  children : ∀ id node, p.arena.get? id = some node → TypeId.Below id.index node.children
  /-- The functions of a resource are nodes. -/
  members : ∀ id node, p.arena.get? id = some node → TypeId.Below p.arena.size node.members
  /-- Types, functions and `use` declarations, in packages, interfaces and worlds, are nodes. -/
  stored : TypeId.Below p.arena.size p.store.ids

namespace Project

variable {p : Project} {node : TypeNode}

theorem founded_empty : Founded {} where
  children _ _ h := by simp [TypeArena.get?] at h
  members _ _ h := by simp [TypeArena.get?] at h
  stored := TypeId.below_nil

theorem Founded.alloc (h : p.Founded) (hchildren : TypeId.Below p.arena.size node.children)
    (hmembers : node.members = []) : Founded { p with arena := (p.arena.alloc node).2 } := by
  have hsize : (p.arena.alloc node).2.size = p.arena.size + 1 := Array.size_push _
  refine ⟨fun id other hid => ?_, fun id other hid => ?_, ?_⟩
  · rw [TypeArena.get?_alloc] at hid
    split at hid
    · rename_i hnew
      cases hid
      rw [hnew]
      exact hchildren
    · exact h.children id other hid
  · rw [TypeArena.get?_alloc] at hid
    split at hid
    · cases hid
      rw [hmembers]
      exact TypeId.below_nil
    · exact (h.members id other hid).mono (hsize ▸ Nat.le_succ _)
  · exact h.stored.mono (hsize ▸ Nat.le_succ _)

theorem Founded.replace {r : ResourceType} (h : p.Founded)
    (hmembers : TypeId.Below p.arena.size r.members) (id : TypeId) :
    Founded { p with arena := (p.arena.replace id (.resource r)).2 } := by
  have hsize : (p.arena.replace id (.resource r)).2.size = p.arena.size :=
    Array.size_setIfInBounds
  have hget (other : TypeId) (node : TypeNode)
      (hnode : (p.arena.replace id (.resource r)).2.get? other = some node) :
      node = .resource r ∨ p.arena.get? other = some node := by
    rw [TypeArena.replace, TypeArena.get?, Array.getElem?_setIfInBounds] at hnode
    split at hnode
    · split at hnode
      · exact .inl (Option.some.inj hnode).symm
      · cases hnode
    · exact .inr hnode
  refine ⟨fun other node hnode => ?_, fun other node hnode => ?_, ?_⟩
  · rcases hget other node hnode with rfl | hnode
    · exact TypeId.below_nil
    · exact h.children other node hnode
  · rw [hsize]
    rcases hget other node hnode with rfl | hnode
    · exact hmembers
    · exact h.members other node hnode
  · rw [hsize]
    exact h.stored

end Project

/-! ### Steps -/

namespace LoadM

variable {α β : Type} {n : Nat} {idsA : α → List TypeId} {idsB : β → List TypeId}

/-- With `n` nodes or more, the step leaves a founded project founded and removes no node, also if
it fails. All ids in what it answers are those of nodes. -/
def Founds (n : Nat) (ids : α → List TypeId) (x : LoadM α) : Prop :=
  ∀ p : Project, n ≤ p.arena.size → p.Founded →
    (x.run.run p).2.Founded ∧ p.arena.size ≤ (x.run.run p).2.arena.size ∧
      ∀ a, (x.run.run p).1 = .ok a → TypeId.Below (x.run.run p).2.arena.size (ids a)

theorem founds_pure {a : α} (h : TypeId.Below n (idsA a)) : Founds n idsA (pure a) := by
  refine fun p hn hp => ⟨hp, Nat.le_refl _, fun b hb => ?_⟩
  cases hb
  exact h.mono hn

theorem founds_throw (e : LoadError) : Founds n idsA (throw e) := by
  refine fun p _ hp => ⟨hp, Nat.le_refl _, fun a ha => ?_⟩
  cases ha

theorem founds_liftM {x : Except LoadError α} : Founds n (fun _ => []) (liftM x : LoadM α) :=
  fun _ _ hp => ⟨hp, Nat.le_refl _, fun _ _ => TypeId.below_nil⟩

theorem Founds.bind {x : LoadM α} {f : α → LoadM β} (h : Founds n idsA x)
    (hrest : ∀ a m, n ≤ m → TypeId.Below m (idsA a) → Founds m idsB (f a)) :
    Founds n idsB (x >>= f) := by
  intro p hn hp
  obtain ⟨hfounded, hle, hanswer⟩ := h p hn hp
  rw [run_bind]
  cases hx : x.run.run p with | mk answer mid
  rw [hx] at hfounded hle hanswer
  cases answer with
  | error e => exact ⟨hfounded, hle, fun b hb => by cases hb⟩
  | ok a =>
    obtain ⟨hfounded', hle', hanswer'⟩ :=
      hrest a mid.arena.size (Nat.le_trans hn hle) (hanswer a rfl) mid (Nat.le_refl _) hfounded
    exact ⟨hfounded', Nat.le_trans hle hle', hanswer'⟩

theorem founds_alloc {node : TypeNode} (h : TypeId.Below n node.children)
    (hmembers : node.members = []) : Founds n (fun id => [id]) (alloc node) := by
  intro p hn hp
  have hsize : (p.arena.nodes.push node).size = p.arena.size + 1 := Array.size_push _
  refine ⟨hp.alloc (h.mono hn) hmembers, ?_, fun id hid => ?_⟩
  · exact Nat.le_of_lt (Nat.lt_of_lt_of_eq (Nat.lt_succ_self _) hsize.symm)
  · cases hid
    exact TypeId.below_cons.2
      ⟨Nat.lt_of_lt_of_eq (Nat.lt_succ_self _) hsize.symm, TypeId.below_nil⟩

theorem founds_replace {r : ResourceType} (h : TypeId.Below n r.members) (id : TypeId) :
    Founds n (fun _ => []) (replace id (.resource r)) :=
  fun _ hn hp => ⟨hp.replace (h.mono hn) id, Nat.le_of_eq Array.size_setIfInBounds.symm,
    fun _ _ => TypeId.below_nil⟩

theorem founds_insert {package : PackageRef} {contents : PackageContents}
    (h : TypeId.Below n contents.ids) : Founds n (fun _ => []) (insert package contents) :=
  fun _ hn hp => ⟨⟨hp.children, hp.members, PackageStore.below_insert hp.stored (h.mono hn)⟩,
    Nat.le_refl _, fun _ _ => TypeId.below_nil⟩

variable {ι : Type}

theorem founds_mapM (ids : α → List TypeId) {f : ι → LoadM α}
    (h : ∀ x m, n ≤ m → Founds m ids (f x)) (xs : List ι) :
    Founds n (fun ys => ys.flatMap ids) (xs.mapM f) := by
  induction xs generalizing n with
  | nil => exact founds_pure TypeId.below_nil
  | cons x rest ih =>
    rw [List.mapM_cons]
    exact (h x n (Nat.le_refl n)).bind fun _ m hm hfirst =>
      (ih fun x k hk => h x k (Nat.le_trans hm hk)).bind fun _ _ hle hmore =>
        founds_pure (TypeId.below_append.2 ⟨hfirst.mono hle, hmore⟩)

theorem founds_foldlM {f : α → ι → LoadM α}
    (h : ∀ a x n, TypeId.Below n (idsA a) → Founds n idsA (f a x)) (xs : List ι) {a : α}
    (ha : TypeId.Below n (idsA a)) : Founds n idsA (xs.foldlM f a) := by
  induction xs generalizing n a with
  | nil => exact founds_pure ha
  | cons x rest ih =>
    rw [List.foldlM_cons]
    exact (h a x n ha).bind fun _ _ _ hb => ih hb

theorem founds_forM {f : ι → LoadM Unit} (h : ∀ x n, Founds n (fun _ => []) (f x)) (xs : List ι)
    (n : Nat) : Founds n (fun _ => []) (xs.forM f) := by
  induction xs generalizing n with
  | nil => exact founds_pure TypeId.below_nil
  | cons x rest ih => exact (h x n).bind fun _ m _ _ => ih m

/-! ### Types -/

theorem founds_namedType (scope : PackageRef) (name : String) (n : Nat) :
    Founds n (fun id => [id]) (namedType scope name) := by
  unfold namedType
  cases hkeyword : TypeNode.ofKeyword? name with
  | some node =>
    obtain ⟨hchildren, hmembers⟩ := TypeNode.no_ids_of_ofKeyword? hkeyword
    exact founds_alloc (hchildren ▸ TypeId.below_nil) hmembers
  | none =>
    by_cases hresult : name = "result"
    · simp only [if_pos hresult]
      exact founds_alloc TypeId.below_nil rfl
    · simp only [if_neg hresult]
      exact founds_liftM.bind fun _ _ _ _ => founds_alloc TypeId.below_nil rfl

mutual

theorem founds_typeExpr (scope : PackageRef) :
    ∀ e n, Founds n (fun id => [id]) (typeExpr scope e)
  | .name text, n =>
    founds_namedType scope text n
  | .list element, n =>
    (founds_typeExpr scope element n).bind fun _ _ _ h => founds_alloc h rfl
  | .option payload, n =>
    (founds_typeExpr scope payload n).bind fun _ _ _ h => founds_alloc h rfl
  | .tuple elements, n =>
    (founds_typeExprs scope elements n).bind fun _ _ _ h => founds_alloc h rfl
  | .result ok err, n =>
    (founds_optionalType scope ok n).bind fun _ m _ hok =>
      (founds_optionalType scope err m).bind fun _ _ hle herr =>
        founds_alloc (TypeId.below_append.2 ⟨hok.mono hle, herr⟩) rfl
  | .borrow resource, n =>
    (founds_namedType scope resource n).bind fun _ _ _ h => founds_alloc h rfl
  | .own resource, n =>
    founds_namedType scope resource n
  | .stream element, n =>
    (founds_optionalType scope element n).bind fun _ _ _ h => founds_alloc h rfl
  | .future value, n =>
    (founds_optionalType scope value n).bind fun _ _ _ h => founds_alloc h rfl
  | .func ⟨params, results⟩, n =>
    (founds_namedTypes scope params n).bind fun _ m _ hparams =>
      (founds_typeExprs scope results m).bind fun _ _ hle hresults =>
        founds_alloc (TypeId.below_append.2 ⟨hparams.mono hle, hresults⟩) rfl
  | .interface _, _ =>
    founds_liftM.bind fun _ _ _ _ => founds_alloc TypeId.below_nil rfl
termination_by structural e => e

theorem founds_typeExprs (scope : PackageRef) :
    ∀ es n, Founds n (fun ids => ids) (typeExprs scope es)
  | [], _ =>
    founds_pure TypeId.below_nil
  | e :: rest, n =>
    (founds_typeExpr scope e n).bind fun _ m _ hfirst =>
      (founds_typeExprs scope rest m).bind fun _ _ hle hmore =>
        founds_pure (TypeId.below_append.2 ⟨hfirst.mono hle, hmore⟩)
termination_by structural es => es

theorem founds_namedTypes (scope : PackageRef) :
    ∀ fields n, Founds n (fun xs => xs.map (·.2)) (namedTypes scope fields)
  | [], _ =>
    founds_pure TypeId.below_nil
  | (_, e) :: rest, n =>
    (founds_typeExpr scope e n).bind fun _ m _ hfirst =>
      (founds_namedTypes scope rest m).bind fun _ _ hle hmore =>
        founds_pure (TypeId.below_append.2 ⟨hfirst.mono hle, hmore⟩)
termination_by structural fields => fields

theorem founds_optionalType (scope : PackageRef) :
    ∀ e n, Founds n Option.toList (optionalType scope e)
  | none, _ =>
    founds_pure TypeId.below_nil
  | some e, n =>
    (founds_typeExpr scope e n).bind fun _ _ _ h => founds_pure h
termination_by structural e => e

end

/-! ### Functions and resources -/

variable {scope : PackageRef}

theorem founds_functionType (decl : FunctionDecl) (n : Nat) :
    Founds n (fun f => f.paramTypes ++ f.results) (functionType scope decl) :=
  (founds_namedTypes scope decl.params n).bind fun _ m _ hparams =>
    (founds_typeExprs scope decl.results m).bind fun _ _ hle hresults =>
      founds_pure (TypeId.below_append.2 ⟨hparams.mono hle, hresults⟩)

theorem founds_function (decl : FunctionDecl) (n : Nat) :
    Founds n (fun id => [id]) (function scope decl) :=
  (founds_functionType decl n).bind fun _ _ _ h => founds_alloc h rfl

theorem founds_namedFunction (name : String) (decl : FunctionDecl) (n : Nat) :
    Founds n (fun f => [f.func]) (namedFunction scope name decl) :=
  (founds_function decl n).bind fun _ _ _ h => founds_pure h

theorem founds_functions {f : ι → LoadM NamedFunction}
    (h : ∀ x m, n ≤ m → Founds m (fun f => [f.func]) (f x)) (xs : List ι) :
    Founds n (fun fs => fs.map (·.func)) (xs.mapM f) := by
  have hall := founds_mapM _ h xs
  simpa only [← List.map_eq_flatMap] using hall

/-- The placeholder of a resource has no functions, and the node that replaces it has functions that
were added in between. -/
theorem founds_resource (name : String) (constructor : Option FunctionDecl)
    (methods statics : List (String × FunctionDecl)) (n : Nat) :
    Founds n (fun id => [id]) (resource scope name constructor methods statics) := by
  unfold resource
  refine (founds_alloc TypeId.below_nil rfl).bind fun id m _ hid =>
    (founds_alloc hid rfl).bind fun borrowed k hk hborrowed => ?_
  have hid := hid.mono hk
  refine (founds_functions (fun decl i hi => ?_) _).bind fun constructors a ha hconstructors =>
    (founds_functions (fun decl i hi => ?_) _).bind fun methods b hb hmethods =>
      (founds_functions (fun decl i _ => ?_) _).bind fun statics c hc hstatics =>
        Founds.bind (founds_alloc ?_ rfl) fun drop d hd hdrop =>
          (founds_replace ?_ id).bind fun _ e he _ => founds_pure ?_
  · -- A constructor returns the resource.
    refine (founds_functionType decl i).bind fun f j hj hf =>
      (founds_alloc (TypeId.below_append.2 ⟨?_, hid.mono (Nat.le_trans hi hj)⟩) rfl).bind
        fun _ _ _ h => founds_pure h
    exact (TypeId.below_append.1 hf).1
  · -- A method takes the resource borrowed.
    refine (founds_functionType decl.2 i).bind fun f j hj hf =>
      (founds_alloc ?_ rfl).bind fun _ _ _ h => founds_pure h
    exact TypeId.below_cons.2 ⟨(TypeId.below_cons.1 (hborrowed.mono (by omega))).1, hf⟩
  · exact founds_namedFunction decl.1 decl.2 i
  · exact hid.mono (by omega)
  · refine TypeId.below_append.2 ⟨?_, hdrop⟩
    simp only [List.map_append, TypeId.below_append]
    exact ⟨⟨hconstructors.mono (by omega), hmethods.mono (by omega)⟩, hstatics.mono (by omega)⟩
  · exact hid.mono (by omega)

/-! ### Items -/

theorem founds_use (source : String) (names : List (String × Option String)) {d : Definitions}
    (hd : TypeId.Below n d.ids) : Founds n DefinitionsOf.ids (use scope source names d) := by
  unfold use
  refine founds_liftM.bind fun origin m hm _ =>
    (founds_mapM (fun name : UseName => [name.type]) (fun name k _ => ?_) _).bind
      fun names k hk hnames => founds_pure ?_
  · exact (founds_alloc TypeId.below_nil rfl).bind fun _ _ _ h => founds_pure h
  · obtain ⟨htypes, hinterfaces, huses⟩ := DefinitionsOf.below_ids.1 (hd.mono (Nat.le_trans hm hk))
    refine DefinitionsOf.below_ids.2 ⟨?_, hinterfaces,
      List.forall_mem_append.2 ⟨huses, List.forall_mem_singleton.2 ?_⟩⟩
    · exact NameMap.forall_values_foldl_insert htypes fun name hname =>
        hnames _ (List.mem_flatMap.2 ⟨name, hname, List.mem_cons_self⟩)
    · rw [UseDecl.ids, List.map_eq_flatMap]
      exact hnames

theorem founds_definition (context : String) {d : Definitions} (item : Item)
    (hd : TypeId.Below n d.ids) : Founds n DefinitionsOf.ids (definition scope context d item) := by
  have hbind {name : String} {x : LoadM TypeId} (h : Founds n (fun id => [id]) x) :
      Founds n DefinitionsOf.ids (do
        return { d with types := d.types.insert name (← x) }) :=
    h.bind fun id m hm hid => founds_pure
      (DefinitionsOf.below_bind (hd.mono hm) (TypeId.below_cons.1 hid).1)
  unfold definition
  cases item with
  | record name fields =>
    exact (founds_namedTypes scope fields n).bind fun _ _ hm hfields =>
      (founds_alloc hfields rfl).bind fun id _ hk hid => founds_pure
        (DefinitionsOf.below_bind (hd.mono (Nat.le_trans hm hk)) (TypeId.below_cons.1 hid).1)
  | variant name cases =>
    refine (founds_mapM (fun c : String × Option TypeId => c.2.toList) (fun c m _ => ?_) _).bind
      fun _ _ hm hcases => (founds_alloc hcases rfl).bind fun id _ hk hid => founds_pure
        (DefinitionsOf.below_bind (hd.mono (Nat.le_trans hm hk)) (TypeId.below_cons.1 hid).1)
    exact (founds_optionalType scope c.2 m).bind fun _ _ _ h => founds_pure h
  | enum name cases => exact hbind (founds_alloc TypeId.below_nil rfl)
  | flags name labels => exact hbind (founds_alloc TypeId.below_nil rfl)
  | resource name constructor methods statics =>
    exact hbind (founds_resource name constructor methods statics n)
  | type name type => exact hbind (founds_typeExpr scope type n)
  | use source names => exact founds_use source names hd
  | interface | world | func | importing | exporting | including => exact founds_throw _

theorem founds_interfaceItem (context : String) (item : Item)
    {parts : Definitions × List NamedFunction}
    (h : TypeId.Below n (parts.1.ids ++ parts.2.map (·.func))) :
    Founds n (fun parts => parts.1.ids ++ parts.2.map (·.func))
      (interfaceItem scope context parts item) := by
  obtain ⟨hdefinitions, hfunctions⟩ := TypeId.below_append.1 h
  have hother (item : Item) : Founds n (fun parts => parts.1.ids ++ parts.2.map (·.func)) (do
      return (← definition scope context parts.1 item, parts.2)) :=
    (founds_definition context item hdefinitions).bind fun _ _ hm hd =>
      founds_pure (TypeId.below_append.2 ⟨hd, hfunctions.mono hm⟩)
  unfold interfaceItem
  cases item with
  | func name decl =>
    refine (founds_namedFunction name decl n).bind fun f m hm hf =>
      founds_pure (TypeId.below_append.2 ⟨hdefinitions.mono hm, ?_⟩)
    rw [List.map_append]
    exact TypeId.below_append.2 ⟨hfunctions.mono hm, hf⟩
  | _ => exact hother _

theorem founds_interface (package : PackageRef) (name : String) (items : List Item) (n : Nat) :
    Founds n Interface.ids (interface package name items) := by
  unfold interface
  refine (founds_foldlM (fun _ item _ h => founds_interfaceItem _ item h) items
    TypeId.below_nil).bind fun parts m _ hmades =>
      (founds_alloc TypeId.below_nil rfl).bind fun type k hk htype => founds_pure ?_
  rw [Interface.ids_eq]
  exact TypeId.below_append.2 ⟨hmades.mono hk, htype⟩

theorem founds_worldItem (package scope : PackageRef) (target : WorldItemDecl) {d : Definitions}
    (hd : TypeId.Below n d.ids) :
    Founds n (fun answer => answer.1.ids ++ answer.2.ids) (worldItem package scope d target) := by
  unfold worldItem
  cases target with
  | function name decl =>
    exact (founds_function decl n).bind fun _ _ hm hid =>
      founds_pure (TypeId.below_append.2 ⟨hd.mono hm, hid⟩)
  | inline name items =>
    refine (founds_interface scope name items n).bind fun i m hm hi => founds_pure ?_
    obtain ⟨htypes, hinterfaces, huses⟩ := DefinitionsOf.below_ids.1 (hd.mono hm)
    exact TypeId.below_append.2 ⟨DefinitionsOf.below_ids.2
      ⟨htypes, NameMap.forall_values_insert hinterfaces hi, huses⟩, TypeId.below_nil⟩
  | interface reference =>
    exact founds_liftM.bind fun _ _ hm _ =>
      founds_pure (TypeId.below_append.2 ⟨hd.mono hm, TypeId.below_nil⟩)

/-- The ids in the parts of a world. -/
def WorldParts.ids (w : WorldParts) : List TypeId :=
  w.definitions.ids ++ (w.imports ++ w.exports).flatMap WorldItem.ids

theorem founds_worldPart (package scope : PackageRef) (context : String) (item : Item)
    {w : WorldParts} (h : TypeId.Below n w.ids) :
    Founds n WorldParts.ids (worldPart package scope context w item) := by
  obtain ⟨hdefinitions, hitems⟩ := TypeId.below_append.1 h
  have hother (item : Item) : Founds n WorldParts.ids (do
      return { w with definitions := ← definition scope context w.definitions item }) :=
    (founds_definition context item hdefinitions).bind fun _ _ hm hd =>
      founds_pure (TypeId.below_append.2 ⟨hd, hitems.mono hm⟩)
  unfold worldPart
  cases item with
  | importing target | exporting target =>
    refine (founds_worldItem package scope target hdefinitions).bind fun answer m hm hanswer =>
      founds_pure ?_
    obtain ⟨hd, hitem⟩ := TypeId.below_append.1 hanswer
    have hitems := hitems.mono hm
    simp only [List.flatMap_append, TypeId.below_append] at hitems
    simp only [WorldParts.ids, List.flatMap_append, List.flatMap_singleton, TypeId.below_append]
    tauto
  | including reference =>
    exact founds_liftM.bind fun _ _ hm _ => founds_pure (h.mono hm)
  | _ => exact hother _

theorem founds_world (package : PackageRef) (name : String) (items : List Item) (n : Nat) :
    Founds n World.ids (world package name items) := by
  unfold world
  refine (founds_foldlM (fun _ item _ h => founds_worldPart package _ _ item h) items
    TypeId.below_nil).bind fun w m _ hw =>
      (founds_alloc TypeId.below_nil rfl).bind fun type k hk htype => founds_pure ?_
  exact TypeId.below_append.2 ⟨hw.mono hk, htype⟩

theorem founds_packageItem (package : PackageRef) (context : String) (item : Item)
    {c : PackageContents} (h : TypeId.Below n c.ids) :
    Founds n PackageContents.ids (packageItem package context c item) := by
  obtain ⟨hworlds, hdefinitions⟩ := TypeId.below_append.1 h
  have hother (item : Item) : Founds n PackageContents.ids (do
      return { c with definitions := ← definition package context c.definitions item }) :=
    (founds_definition context item hdefinitions).bind fun _ _ hm hd =>
      founds_pure (TypeId.below_append.2 ⟨hworlds.mono hm, hd⟩)
  unfold packageItem
  cases item with
  | interface name items =>
    refine (founds_interface package name items n).bind fun i m hm hi => founds_pure ?_
    obtain ⟨htypes, hinterfaces, huses⟩ := DefinitionsOf.below_ids.1 (hdefinitions.mono hm)
    exact TypeId.below_append.2 ⟨hworlds.mono hm, DefinitionsOf.below_ids.2
      ⟨htypes, NameMap.forall_values_insert hinterfaces hi, huses⟩⟩
  | world name items =>
    refine (founds_world package name items n).bind fun w m hm hw => founds_pure ?_
    refine TypeId.below_append.2 ⟨TypeId.below_flatMap.2 ?_, hdefinitions.mono hm⟩
    exact NameMap.forall_values_insert (TypeId.below_flatMap.1 (hworlds.mono hm)) hw
  | _ => exact hother _

theorem founds_packageItems (package : PackageRef) (items : List Item) (n : Nat) :
    Founds n PackageContents.ids (packageItems package items) :=
  founds_foldlM (fun _ item _ h => founds_packageItem package _ item h) items TypeId.below_nil

/-! ### Groups -/

theorem founds_addFile (package : Option PackageRef) (file : SourceFile) (n : Nat) :
    Founds n (fun _ => []) (addFile package file) := by
  have hblock (package : PackageRef) (items : List Item) (n : Nat) :
      Founds n (fun _ => []) (do insert package (← packageItems package items)) :=
    (founds_packageItems package items n).bind fun _ _ _ h => founds_insert h
  have hown : Founds n (fun _ => []) (addOwn package file) := by
    unfold addOwn
    split
    · exact founds_pure TypeId.below_nil
    · cases package with
      | none => exact founds_throw _
      | some package => exact hblock package file.document.items n
  rw [addFile_eq]
  exact hown.bind fun _ m _ _ => founds_forM (fun nested k =>
    founds_liftM.bind fun package l _ _ => hblock package nested.items l) file.document.packages m

theorem founds_addGroup (g : SourceGroup) (n : Nat) :
    Founds n (fun _ => []) (addGroup g) :=
  founds_liftM.bind fun package m _ _ =>
    founds_forM (fun file k => founds_addFile package file k) g.files m

end LoadM

/-! ### Circles -/

namespace Project

variable {p : Project} {a b : TypeId}

/-- The first node is made of the second. -/
def MadeOf (p : Project) (a b : TypeId) : Prop :=
  ∃ node, p.arena.get? a = some node ∧ b ∈ node.children

/-- The second node is a function of the first, a resource. -/
def Attaches (p : Project) (a b : TypeId) : Prop :=
  ∃ r, p.arena.get? a = some (.resource r) ∧ b ∈ r.members

/-- The edges of the type graph: to what a node is made of, to the functions of a resource, and from
a reference to the node that it leads to. -/
def Edge (p : Project) (a b : TypeId) : Prop :=
  p.MadeOf a b ∨ p.Attaches a b ∨ p.store.Leads p.arena a b

/-- A path of the type graph goes through a reference or to a function of a resource. -/
def Leaps (p : Project) (a b : TypeId) : Prop :=
  ∃ c d, Relation.ReflTransGen p.Edge a c ∧ (p.Attaches c d ∨ p.store.Leads p.arena c d) ∧
    Relation.ReflTransGen p.Edge d b

theorem Founded.index_lt_of_madeOf (h : p.Founded) (hab : p.MadeOf a b) : b.index < a.index :=
  let ⟨node, hnode, hb⟩ := hab
  h.children a node hnode b hb

theorem Founded.leaps_of_le (h : p.Founded) (hab : p.Edge a b) (hle : a.index ≤ b.index) :
    p.Attaches a b ∨ p.store.Leads p.arena a b :=
  hab.resolve_left fun hmade => Nat.not_lt_of_le hle (h.index_lt_of_madeOf hmade)

/-- A path of the type graph leaps, or leads to ever smaller ids. -/
theorem Founded.leaps_or_lt (h : p.Founded) (hab : Relation.TransGen p.Edge a b) :
    p.Leaps a b ∨ b.index < a.index := by
  -- A path that has not leapt yet has gone down with every edge.
  induction hab with
  | single hedge =>
    rcases hedge with hmade | hleap
    · exact .inr (h.index_lt_of_madeOf hmade)
    · exact .inl ⟨_, _, .refl, hleap, .refl⟩
  | tail hpath hedge ih =>
    rcases hedge with hmade | hleap
    · rcases ih with ⟨c, d, hac, hcd, hdb⟩ | hlt
      · exact .inl ⟨c, d, hac, hcd, hdb.tail (.inl hmade)⟩
      · exact .inr (Nat.lt_trans (h.index_lt_of_madeOf hmade) hlt)
    · exact .inl ⟨_, _, hpath.to_reflTransGen, hleap, .refl⟩

/-- The project after groups are added one after the other, whether they are accepted or not. -/
def afterGroups (groups : List SourceGroup) : Project :=
  groups.foldl (fun p g => ((LoadM.addGroup g).run.run p).2) {}

theorem Founded.addGroups (h : p.Founded) (groups : List SourceGroup) :
    (groups.foldl (fun p g => ((LoadM.addGroup g).run.run p).2) p).Founded := by
  induction groups generalizing p with
  | nil => exact h
  | cons g rest ih => exact ih (LoadM.founds_addGroup g 0 p (Nat.zero_le _) h).1

/-- Whatever groups are added, and wherever they are refused, all ids are those of nodes, and a node
is made of earlier nodes. Only the functions of a resource, and references, lead to later nodes, so
every circle of the type graph goes through one of these. -/
theorem founded_afterGroups (groups : List SourceGroup) :
    (afterGroups groups).Founded ∧
      (∀ a b, (afterGroups groups).Edge a b → a.index ≤ b.index →
        (afterGroups groups).Attaches a b ∨
          (afterGroups groups).store.Leads (afterGroups groups).arena a b) ∧
      ∀ id, Relation.TransGen (afterGroups groups).Edge id id →
        (afterGroups groups).Leaps id id := by
  have hfounded : (afterGroups groups).Founded := founded_empty.addGroups groups
  exact ⟨hfounded, fun a b => hfounded.leaps_of_le,
    fun id hid => (hfounded.leaps_or_lt hid).resolve_right (Nat.lt_irrefl _)⟩

end Project

end ComponentAbi
