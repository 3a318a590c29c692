import ComponentAbi.Document.Printer
import ComponentAbi.Document.Reader
import ComponentAbi.Proofs.Json.Text

/-!
# Documents survive their own JSON

What is written of a document is read back as the same document: every part is recognized as the
form that it was written from, and members that were left out get the values that they were left
out for.

* `TypeExpr.ofJson?_toJson`, `Item.ofJsonWithin?_toJson`, `Document.ofJson?_toJson` : reading
  inverts writing, form by form;
* `Document.plain_toJson` : there are no numbers in a written document, and all of it is readable;
* `Document.reads_back` : the text of a document is read back, with any blanks around its parts.
-/

namespace ComponentAbi

/-! ### Parts of written values -/

namespace Json

variable {α β : Type}

theorem bind_of_some {x : Option α} {f : α → Option β} {a : α} {b : β} (hx : x = some a)
    (hf : f a = some b) : x.bind f = some b :=
  Option.bind_eq_some_iff.2 ⟨a, hx, hf⟩

theorem or_of_some {x y : Option α} {a : α} (hx : x = some a) : x.or y = some a :=
  Option.or_eq_some_iff.2 (.inl hx)

/-- Items that are read back one by one are read back together. -/
theorem listOf?_array {read : Json → Option α} {write : α → Json} {items : List α}
    (h : ∀ a ∈ items, read (write a) = some a) :
    listOf? read (.array (items.map write)) = some items :=
  mapM_map_of_forall h

theorem optionOf?_of_ne_null {read : Json → Option α} {j : Json} {a : α} (hj : j ≠ null)
    (h : read j = some a) : optionOf? read j = some (some a) := by
  rw [optionOf?.eq_2 _ _ hj, h]
  rfl

theorem takeMember?_cons {name : String} {j : Json} {members : List (String × Json)}
    (h : ∀ m ∈ members, m.1 ≠ name) :
    takeMember? name ((name, j) :: members) = some (j, members) := by
  have hnone : members.filter (fun m => m.1 == name) = [] :=
    List.filter_eq_nil_iff.2 fun m hm => by simpa using h m hm
  have hall : members.filter (fun m => m.1 != name) = members :=
    List.filter_eq_self.2 fun m hm => by simpa using h m hm
  simp [takeMember?, hnone, hall]

theorem depth_lt_item {j : Json} {items : List Json} (h : j ∈ items) :
    j.depth < (array items).depth :=
  Nat.lt_succ_of_le (depth_le_itemsDepth h)

theorem depth_lt_member {name : String} {j : Json} {members : List (String × Json)}
    (h : (name, j) ∈ members) : j.depth < (object members).depth :=
  Nat.lt_succ_of_le (depth_le_membersDepth h)

theorem plain_optionalMember {name : String} {write : α → Json} {o : Option α}
    (h : ∀ a, Plain (write a)) : ∀ m ∈ optionalMember name write o, Plain m.2 := by
  cases o with
  | none => exact List.forall_mem_nil _
  | some a => exact List.forall_mem_singleton.2 (h a)

theorem plain_listOf {write : α → Json} {items : List α} (h : ∀ a, Plain (write a)) :
    Plain (.listOf write items) :=
  .array (List.forall_mem_map.2 fun a _ => h a)

end Json

open Json

/-! ### Types -/

namespace TypeExpr

theorem listToJson_eq (es : List TypeExpr) : listToJson es = es.map toJson := by
  induction es with
  | nil => rfl
  | cons e es ih => rw [listToJson, ih, List.map_cons]

theorem paramsToJson_eq (params : List (String × TypeExpr)) :
    paramsToJson params = params.map fun p => namedTypeToJson p.1 p.2.toJson := by
  induction params with
  | nil => rfl
  | cons p params ih => rw [paramsToJson, ih, List.map_cons]

theorem toJson_ne_null (e : TypeExpr) : e.toJson ≠ .null := by
  cases e <;> exact nofun

/-- The types right inside a type. -/
def parts : TypeExpr → List TypeExpr
  | list e | option e => [e]
  | tuple es => es
  | result ok err => ok.toList ++ err.toList
  | stream e | future e => e.toList
  | func decl => decl.params.map (·.2) ++ decl.results
  | _ => []

theorem depth_lt_listToJson {e : TypeExpr} {es : List TypeExpr} (h : e ∈ es) :
    e.toJson.depth < (Json.array (listToJson es)).depth :=
  depth_lt_item (listToJson_eq es ▸ List.mem_map_of_mem h)

theorem depth_lt_paramsToJson {e : TypeExpr} {params : List (String × TypeExpr)}
    (h : e ∈ params.map (·.2)) : e.toJson.depth < (Json.array (paramsToJson params)).depth := by
  obtain ⟨p, hp, rfl⟩ := List.mem_map.1 h
  have hnamed : namedTypeToJson p.1 p.2.toJson ∈ paramsToJson params :=
    paramsToJson_eq params ▸ List.mem_map_of_mem hp
  exact Nat.lt_trans (depth_lt_member (List.mem_cons_of_mem _ (List.mem_singleton_self _)))
    (depth_lt_item hnamed)

theorem depth_lt_memberToJson {e : TypeExpr} {o : Option TypeExpr} {label : String}
    {members : List (String × Json)} (h : e ∈ o.toList)
    (hs : memberToJson label o ⊆ members) : e.toJson.depth < (Json.object members).depth := by
  obtain rfl := Option.mem_toList.1 h
  exact depth_lt_member (hs (List.mem_singleton_self _))

theorem depth_lt_of_mem_parts {e e' : TypeExpr} (h : e' ∈ e.parts) :
    e'.toJson.depth < e.toJson.depth := by
  cases e with
  | list e | option e =>
    obtain rfl := List.mem_singleton.1 h
    exact depth_lt_member (List.mem_singleton_self _)
  | tuple es =>
    exact Nat.lt_trans (depth_lt_listToJson h) (depth_lt_member (List.mem_singleton_self _))
  | result ok err =>
    refine Nat.lt_trans ?_ (depth_lt_member (List.mem_singleton_self _))
    rcases List.mem_append.1 h with h | h
    · exact depth_lt_memberToJson h (List.subset_append_left _ _)
    · exact depth_lt_memberToJson h (List.subset_append_right _ _)
  | stream e | future e =>
    obtain rfl := Option.mem_toList.1 h
    exact depth_lt_member (List.mem_singleton_self _)
  | func decl =>
    refine Nat.lt_trans ?_ (depth_lt_member (List.mem_singleton_self _))
    rcases List.mem_append.1 h with h | h
    · exact Nat.lt_trans (depth_lt_paramsToJson h) (depth_lt_member List.mem_cons_self)
    · exact Nat.lt_trans (depth_lt_listToJson h)
        (depth_lt_member (List.mem_cons_of_mem _ (List.mem_singleton_self _)))
  | name | borrow | own | interface => cases h

/-- What holds of a type if it holds of the types right inside it holds of all types. -/
theorem induction_parts {P : TypeExpr → Prop} (step : ∀ e, (∀ e' ∈ e.parts, P e') → P e)
    (e : TypeExpr) : P e := by
  induction hn : e.toJson.depth using Nat.strongRecOn generalizing e with
  | ind n ih => exact step e fun e' he' => ih _ (hn ▸ depth_lt_of_mem_parts he') e' rfl

/-! #### Reading parts of types -/

section Parts

variable {read : Json → Option TypeExpr}

theorem listOf?_listToJson {es : List TypeExpr} (h : ∀ e ∈ es, read e.toJson = some e) :
    listOf? read (.array (listToJson es)) = some es := by
  rw [listToJson_eq]
  exact listOf?_array h

theorem listOf?_paramsToJson {params : List (String × TypeExpr)}
    (h : ∀ e ∈ params.map (·.2), read e.toJson = some e) :
    listOf? (namedTypeOfJson? read) (.array (paramsToJson params)) = some params := by
  rw [paramsToJson_eq]
  exact listOf?_array fun p hp => bind_of_some (h p.2 (List.mem_map_of_mem hp)) rfl

theorem optionOf?_optionToJson {o : Option TypeExpr} (h : ∀ e ∈ o.toList, read e.toJson = some e) :
    optionOf? read (optionToJson o) = some o := by
  cases o with
  | none => rfl
  | some e => exact optionOf?_of_ne_null e.toJson_ne_null (h e (List.mem_singleton_self e))

theorem optional_map_toJson {o : Option TypeExpr} (h : ∀ e ∈ o.toList, read e.toJson = some e) :
    optional read (o.map toJson) = some o := by
  rw [← optionOf?_optionToJson h]
  cases o <;> rfl

end Parts

end TypeExpr

theorem FunctionDeclOf.ofFields?_members {read : Json → Option TypeExpr}
    {params : List (String × TypeExpr)} {results : List TypeExpr}
    (hp : ∀ e ∈ params.map (·.2), read e.toJson = some e)
    (hr : ∀ e ∈ results, read e.toJson = some e) :
    ofFields? read (some (.array (TypeExpr.paramsToJson params)))
      (some (.array (TypeExpr.listToJson results))) = some ⟨params, results⟩ :=
  bind_of_some (TypeExpr.listOf?_paramsToJson hp)
    (bind_of_some (TypeExpr.listOf?_listToJson hr) rfl)

namespace TypeExpr

theorem fields?_result (ok err : Option TypeExpr) :
    fields? ["ok", "err"] true (.object (memberToJson "ok" ok ++ memberToJson "err" err)) =
      some [ok.map toJson, err.map toJson] := by
  cases ok <;> cases err <;> rfl

/-- A type is read back with any number of levels that is enough for it. -/
theorem ofJsonWithin?_toJson (e : TypeExpr) {d : Nat} (hd : e.toJson.depth < d) :
    ofJsonWithin? d e.toJson = some e := by
  induction e using induction_parts generalizing d with
  | step e ih =>
  obtain ⟨d, rfl⟩ : ∃ n, d = n + 1 := ⟨d - 1, by omega⟩
  -- The types right inside are nested less deeply, so one level less is enough for them.
  have hinner : ∀ e' ∈ e.parts, ofJsonWithin? d e'.toJson = some e' := fun e' he' =>
    ih e' he' (Nat.lt_of_lt_of_le (depth_lt_of_mem_parts he') (Nat.le_of_lt_succ hd))
  cases e with
  | name | borrow | own | interface => rfl
  | list e => exact congrArg (Option.map list) (hinner e (List.mem_singleton_self e))
  | option e => exact congrArg (Option.map option) (hinner e (List.mem_singleton_self e))
  | tuple es => exact congrArg (Option.map tuple) (listOf?_listToJson hinner)
  | result ok err =>
    obtain ⟨hok, herr⟩ := List.forall_mem_append.1 hinner
    rw [toJson, ofJsonWithin?]
    simp only [fields?_result]
    exact bind_of_some (optional_map_toJson hok) (bind_of_some (optional_map_toJson herr) rfl)
  | stream e => exact congrArg (Option.map stream) (optionOf?_optionToJson hinner)
  | future e => exact congrArg (Option.map future) (optionOf?_optionToJson hinner)
  | func decl =>
    obtain ⟨hparams, hresults⟩ := List.forall_mem_append.1 hinner
    exact congrArg (Option.map func) (FunctionDeclOf.ofFields?_members hparams hresults)

/-- A type is read back. -/
@[simp] theorem ofJson?_toJson (e : TypeExpr) : ofJson? e.toJson = some e :=
  ofJsonWithin?_toJson e (Nat.lt_succ_self _)

section Plain

theorem plain_listToJson {es : List TypeExpr} (h : ∀ e ∈ es, Plain e.toJson) :
    Plain (.array (listToJson es)) := by
  rw [listToJson_eq]
  exact .array (List.forall_mem_map.2 h)

theorem plain_paramsToJson {params : List (String × TypeExpr)}
    (h : ∀ e ∈ params.map (·.2), Plain e.toJson) : Plain (.array (paramsToJson params)) := by
  rw [paramsToJson_eq]
  refine .array (List.forall_mem_map.2 fun p hp => .object ?_)
  exact List.forall_mem_cons.2 ⟨.string _, List.forall_mem_singleton.2
    (h p.2 (List.mem_map_of_mem hp))⟩

theorem plain_optionToJson {o : Option TypeExpr} (h : ∀ e ∈ o.toList, Plain e.toJson) :
    Plain (optionToJson o) := by
  cases o with
  | none => exact .null
  | some e => exact h e (List.mem_singleton_self e)

theorem plain_memberToJson {label : String} {o : Option TypeExpr}
    (h : ∀ e ∈ o.toList, Plain e.toJson) : ∀ m ∈ memberToJson label o, Plain m.2 := by
  cases o with
  | none => exact List.forall_mem_nil _
  | some e => exact List.forall_mem_singleton.2 (h e (List.mem_singleton_self e))

/-- A written type has no numbers. -/
theorem plain_toJson (e : TypeExpr) : Plain e.toJson := by
  induction e using induction_parts with
  | step e ih =>
  cases e with
  | name text => exact .string text
  | list e | option e =>
    exact .object (List.forall_mem_singleton.2 (ih e (List.mem_singleton_self e)))
  | tuple es => exact .object (List.forall_mem_singleton.2 (plain_listToJson ih))
  | result ok err =>
    obtain ⟨hok, herr⟩ := List.forall_mem_append.1 ih
    exact .object (List.forall_mem_singleton.2 (.object
      (List.forall_mem_append.2 ⟨plain_memberToJson hok, plain_memberToJson herr⟩)))
  | borrow resource | own resource | interface resource =>
    exact .object (List.forall_mem_singleton.2 (.string resource))
  | stream e | future e => exact .object (List.forall_mem_singleton.2 (plain_optionToJson ih))
  | func decl =>
    obtain ⟨hparams, hresults⟩ := List.forall_mem_append.1 ih
    exact .object (List.forall_mem_singleton.2 (.object (List.forall_mem_cons.2
      ⟨plain_paramsToJson hparams, List.forall_mem_singleton.2 (plain_listToJson hresults)⟩)))

end Plain

end TypeExpr

/-! ### Functions -/

namespace FunctionDeclOf

theorem toJson_ne_null (decl : FunctionDecl) : decl.toJson ≠ .null :=
  nofun

/-- A function declaration is read back. -/
theorem ofJson?_toJson (decl : FunctionDecl) : ofJson? TypeExpr.ofJson? decl.toJson = some decl :=
  ofFields?_members (fun e _ => e.ofJson?_toJson) fun e _ => e.ofJson?_toJson

/-- A function declaration is read back with its name. -/
theorem namedOfJson?_namedMembers (name : String) (decl : FunctionDecl) :
    namedOfJson? TypeExpr.ofJson? (.object (namedMembers name decl)) = some (name, decl) :=
  bind_of_some (ofJson?_toJson decl) rfl

theorem plain_members (decl : FunctionDecl) : ∀ m ∈ members decl, Plain m.2 :=
  List.forall_mem_cons.2 ⟨TypeExpr.plain_paramsToJson fun e _ => e.plain_toJson,
    List.forall_mem_singleton.2 (TypeExpr.plain_listToJson fun e _ => e.plain_toJson)⟩

theorem plain_toJson (decl : FunctionDecl) : Plain decl.toJson :=
  .object decl.plain_members

theorem plain_namedMembers (name : String) (decl : FunctionDecl) :
    ∀ m ∈ namedMembers name decl, Plain m.2 :=
  List.forall_mem_cons.2 ⟨.string name, decl.plain_members⟩

end FunctionDeclOf

/-! ### Items -/

/-- The items right inside an import or export. -/
def WorldItemDeclOf.inside : WorldItemDecl → List Item
  | .inline _ items => items
  | _ => []

namespace Item

theorem listToJson_eq (items : List Item) : listToJson items = items.map toJson := by
  induction items with
  | nil => rfl
  | cons i items ih => rw [listToJson, ih, List.map_cons, toJson]

/-- The items right inside an item. -/
def inside : Item → List Item
  | interface _ items | world _ items => items
  | importing target | exporting target => target.inside
  | _ => []

theorem depth_lt_listToJson {i : Item} {items : List Item} (h : i ∈ items) :
    i.toJson.depth < (Json.array (listToJson items)).depth :=
  depth_lt_item (listToJson_eq items ▸ List.mem_map_of_mem h)

theorem depth_lt_of_mem_inside {i i' : Item} (h : i' ∈ i.inside) :
    i'.toJson.depth < i.toJson.depth := by
  have hlast : ∀ {items : List Item} {kind name : Json}, i' ∈ items → i'.toJson.depth <
      (Json.object [("kind", kind), ("name", name), ("items", .array (listToJson items))]).depth :=
    fun hi => Nat.lt_trans (depth_lt_listToJson hi) (depth_lt_member (List.mem_cons_of_mem _
      (List.mem_cons_of_mem _ (List.mem_singleton_self _))))
  cases i with
  | interface | world => exact hlast h
  | importing target | exporting target =>
    cases target with
    | inline => exact hlast h
    | function | interface => cases h
  | _ => cases h

/-- What holds of an item if it holds of the items right inside it holds of all items. -/
theorem induction_inside {P : Item → Prop} (step : ∀ i, (∀ i' ∈ i.inside, P i') → P i)
    (i : Item) : P i := by
  induction hn : i.toJson.depth using Nat.strongRecOn generalizing i with
  | ind n ih => exact step i fun i' hi' => ih _ (hn ▸ depth_lt_of_mem_inside hi') i' rfl

/-! #### Reading parts of items -/

theorem caseOfJson?_caseToJson (label : String) (payload : Option TypeExpr) :
    caseOfJson? (caseToJson label payload) = some (label, payload) := by
  have hpayload := TypeExpr.optional_map_toJson fun (e : TypeExpr) (_ : e ∈ payload.toList) =>
    e.ofJson?_toJson
  cases payload with
  | none => rfl
  | some e => exact bind_of_some hpayload rfl

theorem usedNameOfJson?_usedNameToJson (name : String) (bound : Option String) :
    usedNameOfJson? (usedNameToJson name bound) = some (name, bound) := by
  cases bound <;> rfl

theorem listOf?_functionsToJson (functions : List (String × FunctionDecl)) :
    listOf? (FunctionDeclOf.namedOfJson? TypeExpr.ofJson?) (functionsToJson functions) =
      some functions :=
  listOf?_array fun f _ => FunctionDeclOf.namedOfJson?_namedMembers f.1 f.2

/-- An import or export is read back as the form that it was written from. -/
theorem ofJson?_targetMembers {items : Json → Option (List Item)} (target : WorldItemDecl)
    (h : items (.array (listToJson target.inside)) = some target.inside) :
    WorldItemDeclOf.ofJson? items (.object (targetMembers target)) = some target := by
  cases target with
  | function name decl =>
    exact or_of_some (bind_of_some rfl (bind_of_some decl.ofJson?_toJson rfl))
  | inline name inside =>
    -- Without a member for a function this is not read as one.
    exact or_of_some (bind_of_some rfl (bind_of_some h rfl))
  | interface reference => rfl

/-- An item is read back from what is left of it without its keyword, if the items inside it
are. -/
theorem ofBody?_members {items : Json → Option (List Item)} (i : Item)
    (h : items (.array (listToJson i.inside)) = some i.inside) :
    ofBody? items i.keyword (.object i.members) = some i := by
  cases i with
  | interface name inside => exact bind_of_some h rfl
  | world name inside => exact bind_of_some h rfl
  | record name fields =>
    exact bind_of_some (TypeExpr.listOf?_paramsToJson fun e _ => e.ofJson?_toJson) rfl
  | variant name cases =>
    exact bind_of_some (listOf?_array fun c _ => caseOfJson?_caseToJson c.1 c.2) rfl
  | enum name cases => exact bind_of_some (listOf?_array fun _ _ => rfl) rfl
  | flags name labels => exact bind_of_some (listOf?_array fun _ _ => rfl) rfl
  | resource name constructor methods statics =>
    have hmethods := listOf?_functionsToJson methods
    have hstatics := listOf?_functionsToJson statics
    cases constructor with
    | none => exact bind_of_some hmethods (bind_of_some hstatics rfl)
    | some decl =>
      have hconstructor : optional (FunctionDeclOf.ofJson? TypeExpr.ofJson?) (some decl.toJson) =
        some (some decl) := optionOf?_of_ne_null decl.toJson_ne_null decl.ofJson?_toJson
      exact bind_of_some hconstructor (bind_of_some hmethods (bind_of_some hstatics rfl))
  | type name definition =>
    exact bind_of_some definition.ofJson?_toJson rfl
  | use source names =>
    exact bind_of_some (listOf?_array fun n _ => usedNameOfJson?_usedNameToJson n.1 n.2) rfl
  | func name decl =>
    exact congrArg (Option.map fun f => func f.1 f.2)
      (FunctionDeclOf.namedOfJson?_namedMembers name decl)
  | importing target => exact congrArg (Option.map importing) (ofJson?_targetMembers target h)
  | exporting target => exact congrArg (Option.map exporting) (ofJson?_targetMembers target h)
  | including reference => rfl

theorem kind_notMem_members (i : Item) : ∀ m ∈ i.members, m.1 ≠ "kind" := by
  cases i with
  | resource name constructor methods statics =>
    cases constructor <;> simp [members, optionalMember]
  | importing target | exporting target => cases target <;> simp [members, targetMembers]
  | _ => simp [members, FunctionDeclOf.namedMembers, FunctionDeclOf.members]

/-- An item is read back with any number of levels that is enough for it. -/
theorem ofJsonWithin?_toJson (i : Item) {d : Nat} {nested : Bool} (hd : i.toJson.depth < d) :
    ofJsonWithin? d nested i.toJson = some i := by
  induction i using induction_inside generalizing d nested with
  | step i ih =>
  obtain ⟨d, rfl⟩ : ∃ n, d = n + 1 := ⟨d - 1, by omega⟩
  have hinside : listOf? (ofJsonWithin? d true) (.array (listToJson i.inside)) = some i.inside := by
    rw [listToJson_eq]
    exact listOf?_array fun i' hi' =>
      ih i' hi' (Nat.lt_of_lt_of_le (depth_lt_of_mem_inside hi') (Nat.le_of_lt_succ hd))
  exact bind_of_some (takeMember?_cons i.kind_notMem_members) (ofBody?_members i hinside)

/-- An item is read back. -/
theorem ofJson?_toJson (i : Item) : ofJson? i.toJson = some i :=
  ofJsonWithin?_toJson i (Nat.lt_succ_self _)

theorem listOf?_listToJson (items : List Item) :
    listOf? ofJson? (.array (listToJson items)) = some items := by
  rw [listToJson_eq]
  exact listOf?_array fun i _ => i.ofJson?_toJson

theorem plain_listToJson {items : List Item} (h : ∀ i ∈ items, Plain i.toJson) :
    Plain (.array (listToJson items)) := by
  rw [listToJson_eq]
  exact .array (List.forall_mem_map.2 h)

theorem plain_caseToJson (label : String) (payload : Option TypeExpr) :
    Plain (caseToJson label payload) :=
  .object (List.forall_mem_cons.2 ⟨.string label, plain_optionalMember TypeExpr.plain_toJson⟩)

theorem plain_usedNameToJson (name : String) (bound : Option String) :
    Plain (usedNameToJson name bound) :=
  .object (List.forall_mem_cons.2 ⟨.string name, plain_optionalMember .string⟩)

theorem plain_functionsToJson (functions : List (String × FunctionDecl)) :
    Plain (functionsToJson functions) :=
  plain_listOf fun f => .object (FunctionDeclOf.plain_namedMembers f.1 f.2)

theorem plain_named {name key : String} {j : Json} (h : Plain j) :
    ∀ m ∈ [("name", Json.string name), (key, j)], Plain m.2 :=
  List.forall_mem_cons.2 ⟨.string name, List.forall_mem_singleton.2 h⟩

/-- A written item has no numbers. -/
theorem plain_toJson (i : Item) : Plain i.toJson := by
  induction i using induction_inside with
  | step i ih =>
  refine .object (List.forall_mem_cons.2 ⟨.string _, ?_⟩)
  cases i with
  | interface name inside | world name inside => exact plain_named (plain_listToJson ih)
  | record name fields =>
    exact plain_named (TypeExpr.plain_paramsToJson fun e _ => e.plain_toJson)
  | variant name cases =>
    exact plain_named (plain_listOf fun c => plain_caseToJson c.1 c.2)
  | enum name labels | flags name labels => exact plain_named (plain_listOf .string)
  | resource name constructor methods statics =>
    refine List.forall_mem_append.2 ⟨List.forall_mem_cons.2 ⟨.string name, ?_⟩, ?_⟩
    · exact plain_optionalMember FunctionDeclOf.plain_toJson
    · exact List.forall_mem_cons.2 ⟨plain_functionsToJson methods,
        List.forall_mem_singleton.2 (plain_functionsToJson statics)⟩
  | type name definition => exact plain_named definition.plain_toJson
  | use source names =>
    exact List.forall_mem_cons.2 ⟨.string source, List.forall_mem_singleton.2
      (plain_listOf fun n => plain_usedNameToJson n.1 n.2)⟩
  | func name decl => exact FunctionDeclOf.plain_namedMembers name decl
  | importing target | exporting target =>
    cases target with
    | function name decl => exact plain_named decl.plain_toJson
    | inline name inside => exact plain_named (plain_listToJson ih)
    | interface reference => exact List.forall_mem_singleton.2 (.string reference)
  | including reference => exact List.forall_mem_singleton.2 (.string reference)

end Item

/-! ### Documents -/

/-- A package is read back. -/
theorem NestedPackage.ofJson?_toJson (p : NestedPackage) : ofJson? p.toJson = some p :=
  bind_of_some (Item.listOf?_listToJson p.items) rfl

theorem NestedPackage.plain_toJson (p : NestedPackage) : Plain p.toJson :=
  .object (List.forall_mem_cons.2 ⟨.string _, List.forall_mem_singleton.2
    (Item.plain_listToJson fun i _ => i.plain_toJson)⟩)

namespace Document

/-- There are no numbers in a written document, and all of it is readable. -/
theorem plain_toJson (d : Document) : Plain d.toJson := by
  refine .object (List.forall_mem_append.2 ⟨List.forall_mem_append.2 ⟨?_, ?_⟩, ?_⟩)
  · exact plain_optionalMember .string
  · exact List.forall_mem_singleton.2 (Item.plain_listToJson fun i _ => i.plain_toJson)
  · split
    · exact List.forall_mem_nil _
    · exact List.forall_mem_singleton.2 (plain_listOf NestedPackage.plain_toJson)

/-- A document is read back from its JSON form. -/
theorem ofJson?_toJson (d : Document) : ofJson? d.toJson = some d := by
  have hitems := Item.listOf?_listToJson d.items
  have hpackages : listOf? NestedPackage.ofJson? (.listOf NestedPackage.toJson d.packages) =
      some d.packages := listOf?_array fun p _ => p.ofJson?_toJson
  rw [ofJson?, d.plain_toJson.isReadable]
  obtain ⟨package, items, packages⟩ := d
  cases package <;> cases packages
  · exact bind_of_some hitems rfl
  · exact bind_of_some hitems (bind_of_some hpackages rfl)
  · exact bind_of_some hitems rfl
  · exact bind_of_some hitems (bind_of_some hpackages rfl)

/-- A document whose JSON form is not nested too deeply is read back from its text, without blanks,
indented, or with any other blanks around its parts. -/
theorem reads_back (d : Document) (h : d.toJson.depth ≤ maxDepth) :
    ofJson? d.toJson = some d ∧
    parse? d.toJson.compact = some d ∧
    parse? d.toJson.pretty = some d ∧
    ∀ text : String, d.toJson.Spells text.toList → parse? text = some d := by
  have hspelled : ∀ text : String, d.toJson.Spells text.toList → parse? text = some d :=
    fun text htext => bind_of_some (htext.parse? h) d.ofJson?_toJson
  exact ⟨d.ofJson?_toJson, hspelled _ d.plain_toJson.spells_compact,
    hspelled _ (d.plain_toJson.spells_prettyAt 0), hspelled⟩

/-- A stream without an element type, and a case without a payload. -/
def shapes : Document where
  package := some "ns:geo"
  items := [.interface "shapes" [.variant "shape" [("dot", none), ("path", some (.stream none))]]]

/-- The text of `shapes` without blanks. -/
def shapesText : String :=
  "\x7b\"package\":\"ns:geo\",\"items\":[\x7b\"kind\":\"interface\",\"name\":\"shapes\"," ++
    "\"items\":[\x7b\"kind\":\"variant\",\"name\":\"shape\",\"cases\":[\x7b\"name\":\"dot\"\x7d," ++
    "\x7b\"name\":\"path\",\"type\":\x7b\"stream\":null\x7d\x7d]\x7d]\x7d]\x7d"

theorem reads_back_shapes :
    shapes.toJson.depth ≤ maxDepth ∧ shapes.toJson.compact = shapesText ∧
      parse? shapesText = some shapes ∧ parse? ("\n" ++ shapesText) = some shapes := by
  have hdepth : shapes.toJson.depth ≤ maxDepth := by decide
  have htext : shapes.toJson.compact = shapesText := by decide +kernel
  obtain ⟨-, hcompact, -, hspelled⟩ := reads_back shapes hdepth
  have hline : shapes.toJson.Spells ("\n" ++ shapesText).toList := by
    rw [String.toList_append, ← htext]
    exact shapes.plain_toJson.spells_compact.after (blank_line 0)
  exact ⟨hdepth, htext, htext ▸ hcompact, hspelled _ hline⟩

end Document

end ComponentAbi
