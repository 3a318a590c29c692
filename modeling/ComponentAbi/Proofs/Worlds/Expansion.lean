import ComponentAbi.Proofs.Resolve.Search
import ComponentAbi.Proofs.Worlds.Filed
import Mathlib.Data.List.Perm.Subperm
import Mathlib.Logic.Relation

/-!
# Expansion of worlds

A world stands for the functions that it and the worlds it includes import and export
(`Project.Offers`). Expanding it lists them once each and nothing else, as long as no included world
leads back to itself and all names are found (`Project.worldFunctions_complete`).
-/

namespace ComponentAbi

/-! ### What a world stands for -/

/-- The interface has a function under a name: its own functions under theirs, and those of its
resources under names that say what they are for. -/
inductive Interface.Member (arena : TypeArena) (i : Interface) : String → TypeId → Prop
  /-- A function of the interface. -/
  | function {f : NamedFunction} (h : f ∈ i.functions) : Member arena i f.name f.func
  /-- A constructor of a resource. -/
  | constructor {name : String} {id : TypeId} {r : ResourceType} {f : NamedFunction}
    (hname : (name, id) ∈ i.definitions.types.entries) (hr : arena.get? id = some (.resource r))
    (h : f ∈ r.constructors) : Member arena i ("[constructor]" ++ name) f.func
  /-- A method of a resource. -/
  | method {name : String} {id : TypeId} {r : ResourceType} {f : NamedFunction}
    (hname : (name, id) ∈ i.definitions.types.entries) (hr : arena.get? id = some (.resource r))
    (h : f ∈ r.methods) : Member arena i ("[method]" ++ name ++ "." ++ f.name) f.func
  /-- A static function of a resource. -/
  | static {name : String} {id : TypeId} {r : ResourceType} {f : NamedFunction}
    (hname : (name, id) ∈ i.definitions.types.entries) (hr : arena.get? id = some (.resource r))
    (h : f ∈ r.statics) : Member arena i ("[static]" ++ name ++ "." ++ f.name) f.func
  /-- The function that gives a resource up. -/
  | drop {name : String} {id func : TypeId} {r : ResourceType}
    (hname : (name, id) ∈ i.definitions.types.entries) (hr : arena.get? id = some (.resource r))
    (h : r.drop = some func) : Member arena i ("[resource-drop]" ++ name) func

/-- The imports or exports of a world. -/
def World.items (w : World) : Direction → List WorldItem
  | .imported => w.imports
  | .exported => w.exports

/-- The scope that a world opens. -/
def World.scope (w : World) : PackageRef :=
  w.package.push w.name

namespace Project

variable {p : Project} {w w' : World} {f g : WorldFunction}

/-- The world has the function among its own imports or exports. -/
inductive Offers (p : Project) (w : World) : WorldFunction → Prop
  /-- A function of the world itself. -/
  | function {direction : Direction} {name : String} {func : TypeId}
    (h : { name, kind := .function func } ∈ w.items direction) :
    Offers p w { direction, module := none, name, func }
  /-- A function of an interface. One that is declared in the world itself goes by the name of the
  item. -/
  | member {direction : Direction} {item : WorldItem} {package : PackageRef} {name : String}
    {i : Interface} {member : String} {func : TypeId} (hitem : item ∈ w.items direction)
    (hkind : item.kind = .interface package name) (hfound : p.findInterface package name = .ok i)
    (h : i.Member p.arena member func) :
    Offers p w { direction, module := some (if package.same w.scope then item.name else i.moduleName),
                 name := member, func }

/-- The first world includes the second. -/
def Includes (p : Project) (w w' : World) : Prop :=
  ∃ i ∈ w.includes, p.worldIn i.package i.world = .ok w'

/-- Some world that is included, or the world itself, is included in itself. -/
def Circular (p : Project) (w : World) : Prop :=
  ∃ c, Relation.ReflTransGen p.Includes w c ∧ Relation.TransGen p.Includes c c

/-- All names in the world are found. -/
structure Settles (p : Project) (w : World) : Prop where
  /-- The interfaces of its imports and exports are found. -/
  interfaces : ∀ direction, ∀ item ∈ w.items direction, ∀ package name,
    item.kind = .interface package name → ∃ i, p.findInterface package name = .ok i
  /-- The worlds that it includes are found. -/
  includes : ∀ i ∈ w.includes, ∃ w', p.worldIn i.package i.world = .ok w'

/-! ### Items -/

theorem mem_resourceFunctions {name : String} {r : ResourceType} {x : String × TypeId} :
    x ∈ resourceFunctions name r ↔
      (∃ f ∈ r.constructors, ("[constructor]" ++ name, f.func) = x) ∨
      (∃ f ∈ r.methods, ("[method]" ++ name ++ "." ++ f.name, f.func) = x) ∨
      (∃ f ∈ r.statics, ("[static]" ++ name ++ "." ++ f.name, f.func) = x) ∨
      ∃ func, r.drop = some func ∧ ("[resource-drop]" ++ name, func) = x := by
  simp [resourceFunctions]

/-- Listing an interface gives its members. -/
theorem mem_interfaceFunctions {i : Interface} {module : String} {direction : Direction} :
    f ∈ p.interfaceFunctions i module direction ↔
      ∃ name func, i.Member p.arena name func ∧
        f = { direction, module := some module, name, func } := by
  rw [interfaceFunctions, List.mem_map]
  constructor
  · rintro ⟨⟨name, func⟩, hmem, rfl⟩
    refine ⟨name, func, ?_, rfl⟩
    rcases List.mem_append.1 hmem with hmem | hmem
    · obtain ⟨own, hown, heq⟩ := List.mem_map.1 hmem
      cases heq
      exact .function hown
    · obtain ⟨⟨type, id⟩, htype, hattached⟩ := List.mem_flatMap.1 hmem
      simp only at hattached
      split at hattached
      · rename_i r hr
        rcases mem_resourceFunctions.1 hattached with
          ⟨own, hown, heq⟩ | ⟨own, hown, heq⟩ | ⟨own, hown, heq⟩ | ⟨own, hown, heq⟩ <;> cases heq
        · exact .constructor htype hr hown
        · exact .method htype hr hown
        · exact .static htype hr hown
        · exact .drop htype hr hown
      · cases hattached
  · rintro ⟨name, func, hmember, rfl⟩
    have hattached {type : String} {id : TypeId} {r : ResourceType}
        (htype : (type, id) ∈ i.definitions.types.entries)
        (hr : p.arena.get? id = some (.resource r))
        (h : (name, func) ∈ resourceFunctions type r) :
        { direction, module := some module, name, func : WorldFunction } ∈
          p.interfaceFunctions i module direction := by
      rw [interfaceFunctions]
      refine List.mem_map.2
        ⟨(name, func), List.mem_append_right _ (List.mem_flatMap.2 ⟨_, htype, ?_⟩), rfl⟩
      simp only [hr]
      exact h
    cases hmember with
    | function h =>
      exact ⟨_, List.mem_append_left _ (List.mem_map.2 ⟨_, h, rfl⟩), rfl⟩
    | constructor htype hr h =>
      exact List.mem_map.1 (hattached htype hr (mem_resourceFunctions.2 (.inl ⟨_, h, rfl⟩)))
    | method htype hr h =>
      exact List.mem_map.1
        (hattached htype hr (mem_resourceFunctions.2 (.inr (.inl ⟨_, h, rfl⟩))))
    | static htype hr h =>
      exact List.mem_map.1
        (hattached htype hr (mem_resourceFunctions.2 (.inr (.inr (.inl ⟨_, h, rfl⟩)))))
    | drop htype hr h =>
      exact List.mem_map.1
        (hattached htype hr (mem_resourceFunctions.2 (.inr (.inr (.inr ⟨_, h, rfl⟩)))))

/-- The items of a world in one direction, expanded, are what it offers in that direction. -/
theorem mem_flatten_items {direction : Direction} {functions : List (List WorldFunction)}
    (h : (w.items direction).mapM (p.itemFunctions w.scope direction) = .ok functions) :
    f ∈ functions.flatten ↔ p.Offers w f ∧ f.direction = direction := by
  constructor
  · intro hf
    obtain ⟨fs, hfs, hf⟩ := List.mem_flatten.1 hf
    obtain ⟨⟨name, kind⟩, hitem, hfunctions⟩ := Except.exists_of_mem_mapM h hfs
    cases kind with
    | function func =>
      cases hfunctions
      rw [List.mem_singleton.1 hf]
      exact ⟨.function hitem, rfl⟩
    | interface package target =>
      obtain ⟨i, hi, hfs⟩ := Except.bind_eq_ok.1 hfunctions
      cases hfs
      obtain ⟨member, func, hmember, rfl⟩ := mem_interfaceFunctions.1 hf
      exact ⟨.member hitem rfl hi hmember, rfl⟩
  · rintro ⟨hoffers, hdirection⟩
    cases hoffers with
    | function hitem =>
      cases hdirection
      obtain ⟨fs, hfs, hfunctions⟩ := Except.exists_mem_of_mem_mapM h hitem
      cases hfunctions
      exact List.mem_flatten.2 ⟨_, hfs, List.mem_singleton.2 rfl⟩
    | @member _ item package target i member func hitem hkind hfound hmember =>
      cases hdirection
      obtain ⟨fs, hfs, hfunctions⟩ := Except.exists_mem_of_mem_mapM h hitem
      rw [itemFunctions, hkind] at hfunctions
      simp only [hfound] at hfunctions
      cases hfunctions
      exact List.mem_flatten.2 ⟨_, hfs, mem_interfaceFunctions.2 ⟨member, func, hmember, rfl⟩⟩

theorem exists_items (h : p.Settles w) (direction : Direction) :
    ∃ functions, (w.items direction).mapM (p.itemFunctions w.scope direction) = .ok functions := by
  refine Except.mapM_eq_ok_of_forall fun item hitem => ?_
  rw [itemFunctions]
  split
  · exact ⟨_, rfl⟩
  · rename_i package name hkind
    obtain ⟨i, hi⟩ := h.interfaces direction item hitem package name hkind
    exact ⟨_, Except.bind_eq_ok.2 ⟨i, hi, rfl⟩⟩

/-! ### One step of the expansion -/

variable {depth : Nat} {visiting : List String} {functions : List WorldFunction}

/-- What an included world adds. -/
def expandInclude (p : Project) (depth : Nat) (visiting : List String) (i : IncludeDecl) :
    Except ResolveError (List WorldFunction) := do
  p.expandWorld depth visiting (← p.worldIn i.package i.world)

theorem expandInclude_eq_ok {i : IncludeDecl} : p.expandInclude depth visiting i = .ok functions ↔
    ∃ w, p.worldIn i.package i.world = .ok w ∧ p.expandWorld depth visiting w = .ok functions :=
  Except.bind_eq_ok

theorem expandWorld_succ : p.expandWorld (depth + 1) visiting w =
    if w.scope.toText ∈ visiting then .error (.includeCycle w.scope.toText)
    else do
      let imports ← (w.items .imported).mapM (p.itemFunctions w.scope .imported)
      let exports ← (w.items .exported).mapM (p.itemFunctions w.scope .exported)
      let included ← w.includes.mapM (p.expandInclude depth (w.scope.toText :: visiting))
      return imports.flatten ++ exports.flatten ++ included.flatten := by
  rw [expandWorld]
  split
  · rename_i hvisited
    rw [if_pos (show w.scope.toText ∈ visiting from hvisited)]
    rfl
  · rename_i hvisited
    rw [if_neg (show w.scope.toText ∉ visiting from hvisited)]
    rfl

theorem expandWorld_eq_ok : p.expandWorld (depth + 1) visiting w = .ok functions ↔
    w.scope.toText ∉ visiting ∧ ∃ imports exports included,
      (w.items .imported).mapM (p.itemFunctions w.scope .imported) = .ok imports ∧
      (w.items .exported).mapM (p.itemFunctions w.scope .exported) = .ok exports ∧
      w.includes.mapM (p.expandInclude depth (w.scope.toText :: visiting)) = .ok included ∧
      functions = imports.flatten ++ exports.flatten ++ included.flatten := by
  rw [expandWorld_succ]
  by_cases hvisited : w.scope.toText ∈ visiting
  · simp [hvisited]
  · simp only [hvisited, if_false, not_false_eq_true, true_and]
    constructor
    · intro h
      obtain ⟨imports, himports, h⟩ := Except.bind_eq_ok.1 h
      obtain ⟨exports, hexports, h⟩ := Except.bind_eq_ok.1 h
      obtain ⟨included, hincluded, h⟩ := Except.bind_eq_ok.1 h
      exact ⟨imports, exports, included, himports, hexports, hincluded, (Except.ok.inj h).symm⟩
    · rintro ⟨imports, exports, included, himports, hexports, hincluded, rfl⟩
      exact Except.bind_eq_ok.2 ⟨imports, himports, Except.bind_eq_ok.2 ⟨exports, hexports,
        Except.bind_eq_ok.2 ⟨included, hincluded, rfl⟩⟩⟩

/-- A world is expanded into what it and the worlds that it includes offer. -/
theorem mem_of_expandWorld (h : p.expandWorld depth visiting w = .ok functions) :
    f ∈ functions ↔ ∃ w', Relation.ReflTransGen p.Includes w w' ∧ p.Offers w' f := by
  induction depth generalizing visiting w functions with
  | zero => cases h
  | succ depth ih =>
    obtain ⟨-, imports, exports, included, himports, hexports, hincluded, rfl⟩ :=
      expandWorld_eq_ok.1 h
    rw [List.mem_append, List.mem_append, mem_flatten_items himports, mem_flatten_items hexports]
    constructor
    · rintro ((⟨hf, -⟩ | ⟨hf, -⟩) | hf)
      · exact ⟨w, .refl, hf⟩
      · exact ⟨w, .refl, hf⟩
      · obtain ⟨fs, hfs, hf⟩ := List.mem_flatten.1 hf
        obtain ⟨i, hi, hexpanded⟩ := Except.exists_of_mem_mapM hincluded hfs
        obtain ⟨next, hnext, hexpanded⟩ := expandInclude_eq_ok.1 hexpanded
        obtain ⟨w', hreach, hoffers⟩ := (ih hexpanded).1 hf
        exact ⟨w', .head ⟨i, hi, hnext⟩ hreach, hoffers⟩
    · rintro ⟨w', hreach, hoffers⟩
      rcases Relation.ReflTransGen.cases_head hreach with rfl | ⟨next, ⟨i, hi, hnext⟩, hreach⟩
      · cases hdirection : f.direction with
        | imported => exact .inl (.inl ⟨hoffers, rfl⟩)
        | exported => exact .inl (.inr ⟨hoffers, rfl⟩)
      · obtain ⟨fs, hfs, hexpanded⟩ := Except.exists_mem_of_mem_mapM hincluded hi
        obtain ⟨next', hnext', hexpanded⟩ := expandInclude_eq_ok.1 hexpanded
        rw [hnext] at hnext'
        cases hnext'
        exact .inr (List.mem_flatten.2 ⟨fs, hfs, (ih hexpanded).2 ⟨w', hreach, hoffers⟩⟩)

/-- A world that is expanded includes no world that includes itself. -/
theorem not_circular_of_expandWorld (h : p.expandWorld depth visiting w = .ok functions) :
    ¬p.Circular w := by
  induction depth generalizing visiting w functions with
  | zero => cases h
  | succ depth ih =>
    obtain ⟨-, imports, exports, included, -, -, hincluded, -⟩ := expandWorld_eq_ok.1 h
    have hnext {next : World} (hstep : p.Includes w next) : ¬p.Circular next := by
      obtain ⟨i, hi, hnext⟩ := hstep
      obtain ⟨fs, -, hexpanded⟩ := Except.exists_mem_of_mem_mapM hincluded hi
      obtain ⟨next', hnext', hexpanded⟩ := expandInclude_eq_ok.1 hexpanded
      rw [hnext] at hnext'
      cases hnext'
      exact ih hexpanded
    rintro ⟨c, hreach, hcircle⟩
    rcases Relation.ReflTransGen.cases_head hreach with rfl | ⟨next, hstep, hreach⟩
    · obtain ⟨next, hstep, hback⟩ := Relation.TransGen.head'_iff.1 hcircle
      exact hnext hstep ⟨w, hback, hcircle⟩
    · exact hnext hstep ⟨c, hreach, hcircle⟩

/-! ### The depth is no limit -/

/-- The written scopes of all worlds. -/
def worldTexts (p : Project) : List String :=
  p.store.packages.flatMap fun package => package.versions.flatMap fun e =>
    e.2.worlds.entries.map fun w => w.2.scope.toText

theorem length_worldTexts : p.worldTexts.length = p.worldCount := by
  simp [worldTexts, worldCount, List.length_flatMap]

theorem worldIn_eq_ok {package : PackageRef} {name : String} : p.worldIn package name = .ok w ↔
    ∃ contents, p.store.contents? package = some contents ∧
      contents.worlds.find? name = some w := by
  rw [worldIn, Except.bind_eq_ok]
  simp only [PackageStore.lookup_eq_ok]
  refine exists_congr fun contents => and_congr_right fun _ => ?_
  cases contents.worlds.find? name <;> simp [pure, Except.pure, throw, throwThe, MonadExceptOf.throw]

theorem mem_worldTexts {package : PackageRef} {name : String} (h : p.worldIn package name = .ok w) :
    w.scope.toText ∈ p.worldTexts := by
  obtain ⟨contents, hcontents, hw⟩ := worldIn_eq_ok.1 h
  obtain ⟨q, hq, -, e, he, rfl⟩ := PackageStore.exists_entry_of_contents? hcontents
  exact List.mem_flatMap.2 ⟨q, hq, List.mem_flatMap.2 ⟨e, he,
    List.mem_map.2 ⟨_, NameMap.mem_of_find? hw, rfl⟩⟩⟩

theorem length_le_worldCount (hnodup : visiting.Nodup) (hin : visiting ⊆ p.worldTexts) :
    visiting.length ≤ p.worldCount :=
  length_worldTexts (p := p) ▸ (hnodup.subperm hin).length_le

/-- The worlds that are being expanded are different ones, so all depths that are left after them
give the same. -/
theorem expandWorld_congr {depth' : Nat} (hnodup : visiting.Nodup) (hin : visiting ⊆ p.worldTexts)
    (hw : w.scope.toText ∈ p.worldTexts) (hdepth : p.worldCount < depth + visiting.length)
    (hdepth' : p.worldCount < depth' + visiting.length) :
    p.expandWorld depth visiting w = p.expandWorld depth' visiting w := by
  have hlength := length_le_worldCount hnodup hin
  induction depth generalizing depth' visiting w with
  | zero => omega
  | succ depth ih =>
    obtain ⟨depth', rfl⟩ : ∃ n, depth' = n + 1 := ⟨depth' - 1, by omega⟩
    rw [expandWorld_succ, expandWorld_succ]
    by_cases hvisited : w.scope.toText ∈ visiting
    · rw [if_pos hvisited, if_pos hvisited]
    · rw [if_neg hvisited, if_neg hvisited]
      have hnodup' : (w.scope.toText :: visiting).Nodup := List.nodup_cons.2 ⟨hvisited, hnodup⟩
      have hin' : w.scope.toText :: visiting ⊆ p.worldTexts := List.cons_subset.2 ⟨hw, hin⟩
      have hincluded : p.expandInclude depth (w.scope.toText :: visiting) =
          p.expandInclude depth' (w.scope.toText :: visiting) := by
        funext i
        rw [expandInclude, expandInclude]
        cases hnext : p.worldIn i.package i.world with
        | error e => rfl
        | ok next =>
          refine ih hnodup' hin' (mem_worldTexts hnext) ?_ ?_ (length_le_worldCount hnodup' hin')
          all_goals
            simp only [List.length_cons]
            omega
      rw [hincluded]

/-! ### Different worlds are written differently -/

/-- No separator of references is in the name of a world. -/
def PlainWorldNames (p : Project) : Prop :=
  ∀ package ∈ p.store.packages, ∀ e ∈ package.versions, ∀ w ∈ e.2.worlds.entries,
    ':' ∉ w.1.toList ∧ '@' ∉ w.1.toList ∧ '/' ∉ w.1.toList

/-- What was found in a store where worlds are filed under their own names. -/
structure Placed (p : Project) (w : World) : Prop where
  /-- Its own names lead to it. -/
  homed : p.store.Homed w
  /-- No separator is in its name. -/
  plain : ':' ∉ w.name.toList ∧ '@' ∉ w.name.toList ∧ '/' ∉ w.name.toList
  /-- It is one of the worlds of the project. -/
  mem : w.scope.toText ∈ p.worldTexts

theorem placed_of_worldIn (hfiled : p.store.Filed) (hnames : p.PlainWorldNames)
    {package : PackageRef} {name : String} (h : p.worldIn package name = .ok w) : p.Placed w := by
  obtain ⟨contents, hcontents, hw⟩ := worldIn_eq_ok.1 h
  refine ⟨hfiled.homed hcontents hw, ?_, mem_worldTexts h⟩
  obtain ⟨q, hq, -, e, he, rfl⟩ := PackageStore.exists_entry_of_contents? hcontents
  have hmem := NameMap.mem_of_find? hw
  have hname : w.name = name := (hfiled.worlds q hq e he _ hmem).name
  rw [hname]
  exact hnames q hq e he _ hmem

theorem Placed.eq (h : p.Placed w) (h' : p.Placed w') (htext : w.scope.toText = w'.scope.toText) :
    w = w' := by
  have hscope := PackageRef.eq_of_toText_eq (h.homed.plain.push h.plain)
    (h'.homed.plain.push h'.plain) htext
  simp only [PackageRef.push, PackageName.push, PackageRef.mk.injEq, PackageName.mk.injEq] at hscope
  obtain ⟨⟨hnamespaces, hpath⟩, hversion⟩ := hscope
  obtain ⟨hpath, hname⟩ := List.append_inj' hpath rfl
  refine h.homed.eq h'.homed (List.singleton_inj.1 hname) ?_
  rw [PackageRef.mk.injEq, PackageName.mk.injEq]
  exact ⟨⟨hnamespaces, hpath⟩, hversion⟩

/-! ### Worlds without cycles are expanded -/

theorem Circular.head (h : p.Circular w') (hstep : p.Includes w w') : p.Circular w :=
  let ⟨c, hreach, hcircle⟩ := h
  ⟨c, .head hstep hreach, hcircle⟩

/-- A world is expanded if all names are found and there is no cycle. Every world that is being
expanded includes the current one, so one of the same name would be the same world, in a cycle. -/
theorem exists_expandWorld (hfiled : p.store.Filed) (hnames : p.PlainWorldNames)
    (hcircular : ¬p.Circular w)
    (hsettles : ∀ w', Relation.ReflTransGen p.Includes w w' → p.Settles w')
    (hnodup : visiting.Nodup) (hw : p.Placed w)
    (hvisiting : ∀ text ∈ visiting, ∃ a, p.Placed a ∧ a.scope.toText = text ∧
      Relation.TransGen p.Includes a w)
    (hdepth : p.worldCount < depth + visiting.length) :
    ∃ functions, p.expandWorld depth visiting w = .ok functions := by
  have hin : visiting ⊆ p.worldTexts := fun text htext =>
    let ⟨_, ha, heq, _⟩ := hvisiting text htext
    heq ▸ ha.mem
  have hlength := length_le_worldCount hnodup hin
  induction depth generalizing visiting w with
  | zero => omega
  | succ depth ih =>
    have hnew : w.scope.toText ∉ visiting := by
      intro hvisited
      obtain ⟨a, ha, heq, hlead⟩ := hvisiting _ hvisited
      rw [ha.eq hw heq] at hlead
      exact hcircular ⟨w, .refl, hlead⟩
    have hnodup' : (w.scope.toText :: visiting).Nodup := List.nodup_cons.2 ⟨hnew, hnodup⟩
    have hin' : w.scope.toText :: visiting ⊆ p.worldTexts := List.cons_subset.2 ⟨hw.mem, hin⟩
    obtain ⟨imports, himports⟩ := exists_items (hsettles w .refl) .imported
    obtain ⟨exports, hexports⟩ := exists_items (hsettles w .refl) .exported
    obtain ⟨included, hincluded⟩ : ∃ included,
        w.includes.mapM (p.expandInclude depth (w.scope.toText :: visiting)) = .ok included := by
      refine Except.mapM_eq_ok_of_forall fun i hi => ?_
      obtain ⟨next, hnext⟩ := (hsettles w .refl).includes i hi
      have hstep : p.Includes w next := ⟨i, hi, hnext⟩
      obtain ⟨fs, hfs⟩ := ih (fun h => hcircular (h.head hstep))
        (fun w' hreach => hsettles w' (.head hstep hreach)) hnodup'
        (placed_of_worldIn hfiled hnames hnext)
        (List.forall_mem_cons.2 ⟨⟨w, hw, rfl, .single hstep⟩, fun text htext =>
          let ⟨a, ha, heq, hlead⟩ := hvisiting text htext
          ⟨a, ha, heq, hlead.tail hstep⟩⟩)
        (by simp only [List.length_cons]; omega) hin' (length_le_worldCount hnodup' hin')
      exact ⟨fs, expandInclude_eq_ok.2 ⟨next, hnext, hfs⟩⟩
    exact ⟨_, expandWorld_eq_ok.2 ⟨hnew, imports, exports, included, himports, hexports, hincluded,
      rfl⟩⟩

end Project

/-! ### One entry for each function -/

namespace WorldFunction

variable {f g : WorldFunction} {functions kept : List WorldFunction}

theorem sameEntry_iff : f.sameEntry g ↔
    f.direction = g.direction ∧ f.module = g.module ∧ f.name = g.name := by
  simp [sameEntry, and_assoc]

/-- Keeping the first entries, after those that were kept before. -/
theorem keep_spec (hkept : kept.Pairwise fun f g => ¬f.sameEntry g) :
    let result := functions.foldl
      (fun kept f => if kept.any f.sameEntry then kept else f :: kept) kept
    result.Pairwise (fun f g => ¬f.sameEntry g) ∧ (∀ f ∈ kept, f ∈ result) ∧
      (∀ f ∈ result, f ∈ kept ∨ f ∈ functions) ∧
      ∀ f ∈ functions, ∃ g ∈ result, f.sameEntry g := by
  induction functions generalizing kept with
  | nil => exact ⟨hkept, fun _ h => h, fun _ h => .inl h, by simp⟩
  | cons f rest ih =>
    simp only [List.foldl_cons]
    by_cases hany : kept.any f.sameEntry
    · simp only [hany, if_true]
      obtain ⟨hpairwise, hold, hnew, hall⟩ := ih hkept
      obtain ⟨g, hg, hsame⟩ := List.any_eq_true.1 hany
      exact ⟨hpairwise, hold, fun x hx => (hnew x hx).imp_right (List.mem_cons_of_mem _),
        List.forall_mem_cons.2 ⟨⟨g, hold g hg, hsame⟩, hall⟩⟩
    · simp only [hany]
      have hnone : ∀ g ∈ kept, ¬f.sameEntry g := by simpa using hany
      obtain ⟨hpairwise, hold, hnew, hall⟩ := ih (List.pairwise_cons.2 ⟨hnone, hkept⟩)
      refine ⟨hpairwise, fun x hx => hold x (List.mem_cons_of_mem _ hx), fun x hx => ?_,
        List.forall_mem_cons.2 ⟨⟨f, hold f List.mem_cons_self, sameEntry_iff.2 ⟨rfl, rfl, rfl⟩⟩,
          hall⟩⟩
      rcases hnew x hx with hx | hx
      · rcases List.mem_cons.1 hx with rfl | hx
        · exact .inr List.mem_cons_self
        · exact .inl hx
      · exact .inr (List.mem_cons_of_mem _ hx)

theorem pairwise_distinct : (distinct functions).Pairwise fun f g => ¬f.sameEntry g := by
  rw [distinct, List.pairwise_reverse]
  refine (keep_spec List.Pairwise.nil).1.imp fun h hsame => h ?_
  obtain ⟨hd, hm, hn⟩ := sameEntry_iff.1 hsame
  exact sameEntry_iff.2 ⟨hd.symm, hm.symm, hn.symm⟩

theorem mem_of_mem_distinct (h : f ∈ distinct functions) : f ∈ functions :=
  ((keep_spec List.Pairwise.nil).2.2.1 f (List.mem_reverse.1 h)).resolve_left List.not_mem_nil

theorem exists_mem_distinct (h : f ∈ functions) : ∃ g ∈ distinct functions, f.sameEntry g :=
  let ⟨g, hg, hsame⟩ := (keep_spec List.Pairwise.nil).2.2.2 f h
  ⟨g, List.mem_reverse.2 hg, hsame⟩

end WorldFunction

namespace Project

variable {p : Project}

theorem world_eq_ok {reference : String} {w : World} (h : p.world reference = .ok w) :
    ∃ package name, p.worldIn package name = .ok w := by
  obtain ⟨parsed, -, h⟩ := Except.bind_eq_ok.1 h
  split at h
  · cases h
  · rename_i name package hlast
    exact ⟨package, name, Except.mapError_eq_ok.1 h⟩

theorem worldFunctions_eq_ok {reference : String} {functions : List WorldFunction} :
    p.worldFunctions reference = .ok functions ↔ ∃ w all, p.world reference = .ok w ∧
      p.expandWorld (p.worldCount + 1) [] w = .ok all ∧
      functions = WorldFunction.distinct all := by
  rw [worldFunctions, Except.bind_eq_ok]
  refine exists_congr fun w => ?_
  constructor
  · rintro ⟨hw, h⟩
    obtain ⟨all, hall, h⟩ := Except.bind_eq_ok.1 h
    exact ⟨all, hw, Except.mapError_eq_ok.1 hall, (Except.ok.inj h).symm⟩
  · rintro ⟨all, hw, hall, rfl⟩
    exact ⟨hw, Except.bind_eq_ok.2 ⟨all, Except.mapError_eq_ok.2 hall, rfl⟩⟩

/-- The expansion of a world is total, complete and without repetition, in a project where worlds
are filed under their own names, as loading leaves it (`Project.filed_of_ofGroups`). It does not
depend on the depth it is given; it fails if an included world includes itself; it succeeds if there
is no such world and all names are found. What it lists is what the world and the worlds that it
includes offer, with one entry for each direction, module and name. -/
theorem worldFunctions_complete (hfiled : p.store.Filed) (hnames : p.PlainWorldNames)
    (reference : String) :
    (∀ w, p.world reference = .ok w →
      (∀ depth, p.worldCount < depth →
        p.expandWorld depth [] w = p.expandWorld (p.worldCount + 1) [] w) ∧
      (p.Circular w → ∃ e, p.worldFunctions reference = .error e) ∧
      (¬p.Circular w → (∀ w', Relation.ReflTransGen p.Includes w w' → p.Settles w') →
        ∃ functions, p.worldFunctions reference = .ok functions)) ∧
    ∀ functions, p.worldFunctions reference = .ok functions → ∃ w, p.world reference = .ok w ∧
      functions.Pairwise (fun f g => ¬f.sameEntry g) ∧
      (∀ w' f, Relation.ReflTransGen p.Includes w w' → p.Offers w' f →
        ∃ g ∈ functions, f.sameEntry g) ∧
      ∀ f ∈ functions, ∃ w', Relation.ReflTransGen p.Includes w w' ∧ p.Offers w' f := by
  refine ⟨fun w hw => ?_, fun functions hfunctions => ?_⟩
  · obtain ⟨package, name, hfound⟩ := world_eq_ok hw
    refine ⟨fun depth hdepth => ?_, fun hcircular => ?_, fun hcircular hsettles => ?_⟩
    · exact expandWorld_congr List.nodup_nil (List.nil_subset _) (mem_worldTexts hfound)
        (by simpa using hdepth) (by simp)
    · cases h : p.worldFunctions reference with
      | error e => exact ⟨e, rfl⟩
      | ok functions =>
        obtain ⟨w', all, hw', hall, -⟩ := worldFunctions_eq_ok.1 h
        rw [hw] at hw'
        cases hw'
        exact absurd hcircular (not_circular_of_expandWorld hall)
    · obtain ⟨all, hall⟩ := exists_expandWorld hfiled hnames hcircular hsettles List.nodup_nil
        (placed_of_worldIn hfiled hnames hfound) (by simp) (Nat.lt_succ_self _)
      exact ⟨_, worldFunctions_eq_ok.2 ⟨w, all, hw, hall, rfl⟩⟩
  · obtain ⟨w, all, hw, hall, rfl⟩ := worldFunctions_eq_ok.1 hfunctions
    refine ⟨w, hw, WorldFunction.pairwise_distinct, fun w' f hreach hoffers => ?_, fun f hf => ?_⟩
    · exact WorldFunction.exists_mem_distinct ((mem_of_expandWorld hall).2 ⟨w', hreach, hoffers⟩)
    · exact (mem_of_expandWorld hall).1 (WorldFunction.mem_of_mem_distinct hf)

/-- Two included worlds that both include a third one, with a function in it. -/
def diamond : Project :=
  let geo : PackageRef := { name := { namespaces := ["ns"], path := ["geo"] } }
  let world (name : String) (imports : List WorldItem) (includes : List String) : World :=
    { name, package := geo, definitions := {}, imports, exports := [], type := ⟨0⟩,
      includes := includes.map fun world => { package := geo, world } }
  { arena := ⟨#[.function { params := [], results := [] }]⟩
    store := ⟨[{ name := geo.name, versions := [(none,
      { worlds := ⟨[("all", world "all" [] ["left", "right"]),
          ("base", world "base" [{ name := "now", kind := .function ⟨0⟩ }] []),
          ("left", world "left" [] ["base"]), ("right", world "right" [] ["base"])]⟩ })] }]⟩ }

theorem worldFunctions_complete_diamond : ∃ functions,
    diamond.worldFunctions "ns:geo/all" = .ok functions ∧
      functions.Pairwise fun f g => ¬f.sameEntry g := by
  have hplain : PackageRef.Plain { name := { namespaces := ["ns"], path := ["geo"] } } :=
    ⟨⟨by simp, by simp, by simp⟩, by simp⟩
  have hfiled : diamond.store.Filed := by
    refine ⟨?_, ?_⟩
    · simp [diamond, Package.Ordered]
    · simp only [diamond, List.forall_mem_cons, List.not_mem_nil, IsEmpty.forall_iff, implies_true,
        and_true]
      exact ⟨⟨rfl, rfl, rfl, hplain⟩, ⟨rfl, rfl, rfl, hplain⟩, ⟨rfl, rfl, rfl, hplain⟩,
        ⟨rfl, rfl, rfl, hplain⟩⟩
  have hnames : diamond.PlainWorldNames := by
    simp only [PlainWorldNames, diamond, List.forall_mem_cons, List.not_mem_nil, IsEmpty.forall_iff,
      implies_true, and_true]
    simp
  have hlist : diamond.worldFunctions "ns:geo/all" =
      .ok [{ direction := .imported, module := none, name := "now", func := ⟨0⟩ }] := rfl
  obtain ⟨-, -, hpairwise, -⟩ := (worldFunctions_complete hfiled hnames "ns:geo/all").2 _ hlist
  exact ⟨_, hlist, hpairwise⟩

end Project

end ComponentAbi
