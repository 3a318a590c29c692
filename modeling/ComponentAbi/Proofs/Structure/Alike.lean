import ComponentAbi.Marshal.Parts
import ComponentAbi.Proofs.Pointwise
import ComponentAbi.Proofs.Shape.Unfold
import ComponentAbi.TypeSearch

/-!
# The same structure

Two types have the same structure if their unfoldings are the same: the same kinds of nodes, with
the same labels of fields, cases and flags, all the way down. The ids and the names of types do not
matter, nor how many references are followed on the way (`Abi.alike_of_lookup`), nor how often a
node is shared. Types may contain themselves, so unfoldings need not end, and having the same
structure is the greatest relation that goes over to the components (`Abi.Alike`,
`Abi.bisimulation_alike`). It is the same as having the same unfoldings to every depth
(`Abi.alike_iff_forall_alikeTo`).

The errors of two such types only differ in the names in their texts (`AbiError.Alike`), and so do
their shapes (`Shape.Alike`), which are flattened and laid out in the same way
(`Shape.Alike.flatten`, `Shape.Alike.layout`).
-/

namespace ComponentAbi

/-! ### Errors -/

/-- Two errors are the same but for the names of types, references and places in their texts. -/
inductive AbiError.Alike : AbiError → AbiError → Prop where
  | refl (e : AbiError) : Alike e e
  | unsupported {node node' : TypeNode} (kind : node.kind = node'.kind) :
    Alike (Shape.unsupportedError node.title) (Shape.unsupportedError node'.title)
  | tooManyFlags {name name' : String} {count max : Nat} :
    Alike (.tooManyFlags name count max) (.tooManyFlags name' count max)
  | unknownType {id id' : TypeId} : Alike (.unknownType id) (.unknownType id')
  | missingResolver {target target' : String} :
    Alike (.missingResolver target) (.missingResolver target')
  | unresolved {cause cause' : ResolveError} (variant : cause.ctorIdx = cause'.ctorIdx) :
    Alike (.unresolved cause) (.unresolved cause')

theorem AbiError.Alike.symm {e e' : AbiError} (h : e.Alike e') : e'.Alike e := by
  cases h with
  | refl => exact .refl _
  | unsupported kind => exact .unsupported kind.symm
  | tooManyFlags => exact .tooManyFlags
  | unknownType => exact .unknownType
  | missingResolver => exact .missingResolver
  | unresolved variant => exact .unresolved variant.symm

theorem AbiError.Alike.eq_unboundedNesting_iff {e e' : AbiError} (h : e.Alike e') :
    e = .unboundedNesting ↔ e' = .unboundedNesting := by
  cases h with
  | refl => exact Iff.rfl
  | _ => exact iff_of_false nofun nofun

/-- Two answers are related by `P`, or both are errors, which are alike. -/
inductive SameAnswer {α β : Type} (P : α → β → Prop) : Except AbiError α → Except AbiError β → Prop
    where
  | ok {a : α} {b : β} (related : P a b) : SameAnswer P (.ok a) (.ok b)
  | error {e e' : AbiError} (alike : e.Alike e') : SameAnswer P (.error e) (.error e')

namespace SameAnswer

variable {α β γ δ : Type} {P : α → β → Prop} {Q : γ → δ → Prop} {x : Except AbiError α}
  {y : Except AbiError β} {f : α → Except AbiError γ} {g : β → Except AbiError δ}

theorem refl (x : Except AbiError α) : SameAnswer Eq x x := by
  cases x with
  | error e => exact .error (.refl e)
  | ok a => exact .ok rfl

theorem of_eq {z : Except AbiError α} (h : x = z) : SameAnswer Eq x z :=
  h ▸ refl x

theorem ok_or_error (h : SameAnswer P x y) : (∃ a b, x = .ok a ∧ y = .ok b ∧ P a b) ∨
    ∃ e e', x = .error e ∧ y = .error e' ∧ e.Alike e' := by
  cases h with
  | ok related => exact .inl ⟨_, _, rfl, rfl, related⟩
  | error alike => exact .inr ⟨_, _, rfl, rfl, alike⟩

theorem flip (h : SameAnswer P x y) : SameAnswer (flip P) y x := by
  cases h with
  | ok related => exact .ok related
  | error alike => exact .error alike.symm

theorem imp {Q : α → β → Prop} (h : SameAnswer P x y) (hPQ : ∀ a b, P a b → Q a b) :
    SameAnswer Q x y := by
  cases h with
  | ok related => exact .ok (hPQ _ _ related)
  | error alike => exact .error alike

/-- What is done next may rely on what the answers were. -/
theorem bind_of (h : SameAnswer P x y)
    (hf : ∀ a b, x = .ok a → y = .ok b → P a b → SameAnswer Q (f a) (g b)) :
    SameAnswer Q (x >>= f) (y >>= g) := by
  cases h with
  | ok related => exact hf _ _ rfl rfl related
  | error alike => exact .error alike

theorem bind (h : SameAnswer P x y) (hf : ∀ a b, P a b → SameAnswer Q (f a) (g b)) :
    SameAnswer Q (x >>= f) (y >>= g) :=
  h.bind_of fun a b _ _ => hf a b

theorem map {f : α → γ} {g : β → δ} (h : SameAnswer P x y) (hf : ∀ a b, P a b → Q (f a) (g b)) :
    SameAnswer Q (x.map f) (y.map g) := by
  cases h with
  | ok related => exact .ok (hf _ _ related)
  | error alike => exact .error alike

/-- Two answers are put together. -/
theorem both {f : α → γ → δ} {x x' : Except AbiError α} {z z' : Except AbiError γ}
    (hx : SameAnswer Eq x x') (hz : SameAnswer Eq z z') :
    SameAnswer Eq (do let a ← x; let c ← z; return f a c)
      (do let a ← x'; let c ← z'; return f a c) := by
  refine hx.bind ?_
  rintro a _ rfl
  refine hz.bind ?_
  rintro c _ rfl
  exact refl _

theorem mapM {xs : List α} {ys : List β} {f : α → Except AbiError γ} {g : β → Except AbiError γ}
    (h : List.Forall₂ P xs ys) (hf : ∀ a b, P a b → SameAnswer Eq (f a) (g b)) :
    SameAnswer Eq (xs.mapM f) (ys.mapM g) := by
  induction h with
  | nil => exact refl _
  | cons hab _ ih =>
    rw [List.mapM_cons, List.mapM_cons]
    exact (hf _ _ hab).both ih

/-- An answer is there on one side exactly if it is on the other. -/
theorem ok_iff {z : Except AbiError α} {a : α} (h : SameAnswer Eq x z) : x = .ok a ↔ z = .ok a := by
  cases h with
  | ok related => rw [related]
  | error => exact ⟨nofun, nofun⟩

end SameAnswer

/-! ### Leaves and kinds -/

/-- Two leaf types are the same but for the name of a flags type. -/
inductive Leaf.Alike : Leaf → Leaf → Prop where
  | refl (l : Leaf) : Alike l l
  | flags {name name' : String} {labels : List String} :
    Alike (.flags name labels) (.flags name' labels)

namespace Leaf.Alike

variable {l l' : Leaf}

theorem core (h : l.Alike l') : l.core = l'.core := by
  cases h <;> rfl

theorem width (h : l.Alike l') : l.width = l'.width := by
  cases h <;> rfl

theorem check (h : l.Alike l') : SameAnswer Eq l.check l'.check := by
  cases h with
  | refl => exact .refl _
  | flags =>
    rename_i labels
    by_cases hmany : labels.length > maxFlags
    · simp only [Leaf.check, if_pos hmany]
      exact .error .tooManyFlags
    · simp only [Leaf.check, if_neg hmany]
      exact .refl _

theorem encode (h : l.Alike l') (v : Value) : SameAnswer Eq (l.encode v) (l'.encode v) := by
  cases h with
  | refl => exact .refl _
  | flags =>
    cases v with
    | flags set => exact (check .flags).bind fun _ _ _ => .refl _
    | _ => exact .refl _

theorem decode (h : l.Alike l') (n : Nat) : SameAnswer Eq (l.decode n) (l'.decode n) := by
  cases h with
  | refl => exact .refl _
  | flags => exact (check .flags).bind fun _ _ _ => .refl _

end Leaf.Alike

/-- Two kinds of products are the same but for the name of a record. -/
inductive ProductKind.Alike : ProductKind → ProductKind → Prop where
  | record {name name' : TypeName} : Alike (.record name) (.record name')
  | tuple : Alike .tuple .tuple

namespace ProductKind.Alike

variable {kind kind' : ProductKind}

theorem parts (h : kind.Alike kind') (labels : List String) (v : Value) :
    kind.parts labels v = kind'.parts labels v := by
  cases h with
  | record => cases v <;> rfl
  | tuple => rfl

theorem build (h : kind.Alike kind') (labels : List String) (values : List Value) :
    kind.build labels values = kind'.build labels values := by
  cases h <;> rfl

end ProductKind.Alike

/-- Two kinds of sums are the same but for the name of a variant. -/
inductive SumKind.Alike : SumKind → SumKind → Prop where
  | option : Alike .option .option
  | result : Alike .result .result
  | variant {name name' : TypeName} : Alike (.variant name) (.variant name')

namespace SumKind.Alike

variable {kind kind' : SumKind}

theorem caseOf (h : kind.Alike kind') (labels : List String) (v : Value) :
    kind.caseOf labels v = kind'.caseOf labels v := by
  cases h with
  | option | result => rfl
  | variant => cases v <;> rfl

theorem build (h : kind.Alike kind') (index : Nat) (label : String) (payload : Option Value) :
    kind.build index label payload = kind'.build index label payload := by
  cases h <;> rfl

theorem discriminantSize (h : kind.Alike kind') :
    kind.discriminantSize = kind'.discriminantSize := by
  cases h <;> rfl

end SumKind.Alike

/-! ### Shapes -/

namespace Shape

variable {R : TypeId → TypeId → Prop}

mutual

/-- Two shapes are the same but for the names of types, and list elements are related by `R`. -/
inductive Alike (R : TypeId → TypeId → Prop) : Shape → Shape → Prop where
  | leaf {l l' : Leaf} (same : l.Alike l') : Alike R (.leaf l) (.leaf l')
  | string : Alike R .string .string
  | list {element element' : TypeId} (same : R element element') :
    Alike R (.list element) (.list element')
  | product {kind kind' : ProductKind} {fields fields' : List (String × Shape)}
    (same : kind.Alike kind') (alike : FieldsAlike R fields fields') :
    Alike R (.product kind fields) (.product kind' fields')
  | sum {kind kind' : SumKind} {cases cases' : List (String × Option Shape)}
    (same : kind.Alike kind') (alike : CasesAlike R cases cases') :
    Alike R (.sum kind cases) (.sum kind' cases')
  | unsupported {kind title title' : String}
    (same : (unsupportedError title).Alike (unsupportedError title')) :
    Alike R (.unsupported kind title) (.unsupported kind title')
  | unresolved {cause cause' : AbiError} (same : cause.Alike cause') :
    Alike R (.unresolved cause) (.unresolved cause')

/-- The fields have the same labels, and their shapes are alike. -/
inductive FieldsAlike (R : TypeId → TypeId → Prop) :
    List (String × Shape) → List (String × Shape) → Prop where
  | nil : FieldsAlike R [] []
  | cons {label : String} {s s' : Shape} {fields fields' : List (String × Shape)}
    (first : Alike R s s') (rest : FieldsAlike R fields fields') :
    FieldsAlike R ((label, s) :: fields) ((label, s') :: fields')

/-- The cases have the same labels, and the shapes of their payloads are alike. -/
inductive CasesAlike (R : TypeId → TypeId → Prop) :
    List (String × Option Shape) → List (String × Option Shape) → Prop where
  | nil : CasesAlike R [] []
  | bare {label : String} {cases cases' : List (String × Option Shape)}
    (rest : CasesAlike R cases cases') :
    CasesAlike R ((label, none) :: cases) ((label, none) :: cases')
  | payload {label : String} {s s' : Shape} {cases cases' : List (String × Option Shape)}
    (first : Alike R s s') (rest : CasesAlike R cases cases') :
    CasesAlike R ((label, some s) :: cases) ((label, some s') :: cases')

end

/-- The label is the same, and the shapes are alike. -/
def FieldAlike (R : TypeId → TypeId → Prop) (field field' : String × Shape) : Prop :=
  field.1 = field'.1 ∧ field.2.Alike R field'.2

/-- The label is the same, and the payloads have alike shapes, if there are any. -/
def CaseAlike (R : TypeId → TypeId → Prop) (case case' : String × Option Shape) : Prop :=
  case.1 = case'.1 ∧ Option.Rel (Alike R) case.2 case'.2

theorem fieldsAlike_iff {fields fields' : List (String × Shape)} :
    FieldsAlike R fields fields' ↔ List.Forall₂ (FieldAlike R) fields fields' := by
  constructor
  · intro h
    induction fields generalizing fields' with
    | nil =>
      cases h
      exact .nil
    | cons field fields ih =>
      cases h with
      | cons first rest => exact .cons ⟨rfl, first⟩ (ih rest)
  · intro h
    induction h with
    | nil => exact .nil
    | @cons field field' _ _ first _ ih =>
      obtain ⟨label, s⟩ := field
      obtain ⟨label', s'⟩ := field'
      obtain ⟨rfl, hs⟩ := first
      exact .cons hs ih

theorem casesAlike_iff {cases cases' : List (String × Option Shape)} :
    CasesAlike R cases cases' ↔ List.Forall₂ (CaseAlike R) cases cases' := by
  constructor
  · intro h
    induction cases generalizing cases' with
    | nil =>
      cases h
      exact .nil
    | cons case cases ih =>
      cases h with
      | bare rest => exact .cons ⟨rfl, .none⟩ (ih rest)
      | payload first rest => exact .cons ⟨rfl, .some first⟩ (ih rest)
  · intro h
    induction h with
    | nil => exact .nil
    | @cons case case' _ _ first _ ih =>
      obtain ⟨label, payload⟩ := case
      obtain ⟨label', payload'⟩ := case'
      obtain ⟨rfl, hpayload⟩ := first
      cases hpayload with
      | none => exact .bare ih
      | some hs => exact .payload hs ih

theorem FieldsAlike.labels {fields fields' : List (String × Shape)}
    (h : FieldsAlike R fields fields') : fields.map (·.1) = fields'.map (·.1) :=
  map_eq_of_forall₂ (fieldsAlike_iff.1 h) fun _ _ => And.left

theorem CasesAlike.labels {cases cases' : List (String × Option Shape)}
    (h : CasesAlike R cases cases') : cases.map (·.1) = cases'.map (·.1) :=
  map_eq_of_forall₂ (casesAlike_iff.1 h) fun _ _ => And.left

mutual

/-- Alike shapes are passed in the same core words. -/
theorem Alike.flatten : {s s' : Shape} → s.Alike R s' → SameAnswer Eq s.flatten s'.flatten
  | _, _, .leaf same => same.check.map fun _ _ _ => by rw [same.core]
  | _, _, .string | _, _, .list _ => .refl _
  | _, _, .product _ fields => fields.flatten
  | _, _, .sum _ cases => cases.flatten.map fun _ _ => congrArg _
  | _, _, .unsupported error => .error error
  | _, _, .unresolved cause => .error cause

theorem FieldsAlike.flatten : {fields fields' : List (String × Shape)} →
    FieldsAlike R fields fields' → SameAnswer Eq (flattenFields fields) (flattenFields fields')
  | _, _, .nil => .refl _
  | _, _, .cons first rest => first.flatten.both rest.flatten

theorem CasesAlike.flatten : {cases cases' : List (String × Option Shape)} →
    CasesAlike R cases cases' → SameAnswer Eq (flattenCases cases) (flattenCases cases')
  | _, _, .nil => .refl _
  | _, _, .bare rest => rest.flatten
  | _, _, .payload first rest => first.flatten.both rest.flatten

end

mutual

/-- Alike shapes have the same layout. -/
theorem Alike.layout : {s s' : Shape} → s.Alike R s' → SameAnswer Eq s.layout s'.layout
  | _, _, .leaf same => same.check.map fun _ _ _ => by rw [same.width]
  | _, _, .string | _, _, .list _ => .refl _
  | _, _, .product _ fields => fields.layouts.map fun _ _ => congrArg _
  | _, _, .sum kind cases => cases.layouts.map fun _ _ hls => by rw [hls, kind.discriminantSize]
  | _, _, .unsupported error => .error error
  | _, _, .unresolved cause => .error cause

theorem FieldsAlike.layouts : {fields fields' : List (String × Shape)} →
    FieldsAlike R fields fields' → SameAnswer Eq (fieldLayouts fields) (fieldLayouts fields')
  | _, _, .nil => .refl _
  | _, _, .cons first rest => first.layout.both rest.layouts

theorem CasesAlike.layouts : {cases cases' : List (String × Option Shape)} →
    CasesAlike R cases cases' → SameAnswer Eq (payloadLayouts cases) (payloadLayouts cases')
  | _, _, .nil => .refl _
  | _, _, .bare rest => rest.layouts
  | _, _, .payload first rest => first.layout.both rest.layouts

end

theorem FieldsAlike.offsets {fields fields' : List (String × Shape)}
    (h : FieldsAlike R fields fields') :
    SameAnswer Eq (fieldOffsets fields) (fieldOffsets fields') :=
  h.layouts.map fun _ _ => congrArg _

theorem CasesAlike.sumLayout {kind kind' : SumKind} {cases cases' : List (String × Option Shape)}
    (hkind : kind.Alike kind') (h : CasesAlike R cases cases') :
    SameAnswer Eq (Shape.sumLayout kind cases) (Shape.sumLayout kind' cases') :=
  h.layouts.map fun _ _ hls => by rw [hls, hkind.discriminantSize]

end Shape

/-! ### Nodes -/

namespace TypeNode

variable {R S : TypeId → TypeId → Prop} {node node' : TypeNode}

/-- Two nodes are of the same kind and have the same labels, and their components are related by
`R`, one by one. Nothing else of a node has anything to do with its values. -/
inductive Alike (R : TypeId → TypeId → Prop) : TypeNode → TypeNode → Prop where
  | scalar (s : Scalar) : Alike R (.scalar s) (.scalar s)
  | string : Alike R .string .string
  | list {element element' : TypeId} (same : R element element') :
    Alike R (.list element) (.list element')
  | tuple {elements elements' : List TypeId} (same : List.Forall₂ R elements elements') :
    Alike R (.tuple elements) (.tuple elements')
  | option {payload payload' : TypeId} (same : R payload payload') :
    Alike R (.option payload) (.option payload')
  | result {ok ok' err err' : Option TypeId} (sameOk : Option.Rel R ok ok')
    (sameErr : Option.Rel R err err') : Alike R (.result ok err) (.result ok' err')
  | record {name name' : TypeName} {fields fields' : List (String × TypeId)}
    (same : List.Forall₂ (fun f f' => f.1 = f'.1 ∧ R f.2 f'.2) fields fields') :
    Alike R (.record name fields) (.record name' fields')
  | variant {name name' : TypeName} {cases cases' : List (String × Option TypeId)}
    (same : List.Forall₂ (fun c c' => c.1 = c'.1 ∧ Option.Rel R c.2 c'.2) cases cases') :
    Alike R (.variant name cases) (.variant name' cases')
  | enum {name name' : TypeName} (cases : List String) :
    Alike R (.enum name cases) (.enum name' cases)
  | flags {name name' : TypeName} (labels : List String) :
    Alike R (.flags name labels) (.flags name' labels)
  | resource {resource resource' : ResourceType} :
    Alike R (.resource resource) (.resource resource')
  | borrow {resource resource' : TypeId} : Alike R (.borrow resource) (.borrow resource')
  | valueless {node node' : TypeNode} (left : node.isValueless = true)
    (right : node'.isValueless = true) (kind : node.kind = node'.kind) : Alike R node node'

theorem components_of_isValueless (h : node.isValueless = true) : node.components = [] := by
  cases node <;> first | rfl | cases h

theorem Alike.mono (hRS : ∀ id id', R id id' → S id id') (h : node.Alike R node') :
    node.Alike S node' := by
  have hpayload {o o' : Option TypeId} (h : Option.Rel R o o') : Option.Rel S o o' := by
    cases h with
    | none => exact .none
    | some h => exact .some (hRS _ _ h)
  cases h with
  | scalar s => exact .scalar s
  | string => exact .string
  | list element => exact .list (hRS _ _ element)
  | tuple elements => exact .tuple (elements.imp hRS)
  | option payload => exact .option (hRS _ _ payload)
  | result ok err => exact .result (hpayload ok) (hpayload err)
  | record fields => exact .record (fields.imp fun _ _ => And.imp_right (hRS _ _))
  | variant cases => exact .variant (cases.imp fun _ _ => And.imp_right hpayload)
  | enum cases => exact .enum cases
  | flags labels => exact .flags labels
  | resource => exact .resource
  | borrow => exact .borrow
  | valueless left right kind => exact .valueless left right kind

theorem Alike.symm (h : node.Alike R node') : node'.Alike (flip R) node := by
  have hpayload {o o' : Option TypeId} (h : Option.Rel R o o') : Option.Rel (flip R) o' o := by
    cases h with
    | none => exact .none
    | some h => exact .some h
  cases h with
  | scalar s => exact .scalar s
  | string => exact .string
  | list element => exact .list element
  | tuple elements => exact .tuple elements.flip
  | option payload => exact .option payload
  | result ok err => exact .result (hpayload ok) (hpayload err)
  | record fields => exact .record (fields.flip.imp fun _ _ h => ⟨h.1.symm, h.2⟩)
  | variant cases =>
    exact .variant (cases.flip.imp fun _ _ h => ⟨h.1.symm, hpayload h.2⟩)
  | enum cases => exact .enum cases
  | flags labels => exact .flags labels
  | resource => exact .resource
  | borrow => exact .borrow
  | valueless left right kind => exact .valueless right left kind.symm

/-- The components of alike nodes are related one by one. -/
theorem Alike.components (h : node.Alike R node') :
    List.Forall₂ R node.components node'.components := by
  have hpayload {o o' : Option TypeId} (h : Option.Rel R o o') :
      List.Forall₂ R o.toList o'.toList := by
    cases h with
    | none => exact .nil
    | some h => exact .cons h .nil
  cases h with
  | list same | option same => exact .cons same .nil
  | tuple same => exact same
  | result sameOk sameErr => exact List.rel_append (hpayload sameOk) (hpayload sameErr)
  | record same => exact forall₂_map_iff.2 (same.imp fun _ _ => And.right)
  | variant same => exact List.rel_filterMap (fun _ _ => And.right) same
  | scalar | string | enum | flags | resource | borrow => exact .nil
  | valueless left right =>
    rw [components_of_isValueless left, components_of_isValueless right]
    exact .nil

/-- Nodes that are alike up to each of some relations are alike up to all of them at once. -/
theorem Alike.of_forall {R : Nat → TypeId → TypeId → Prop} (h : ∀ n, node.Alike (R n) node') :
    node.Alike (fun id id' => ∀ n, R n id id') node' := by
  have hpayload {o o' : Option TypeId} (h : ∀ n, Option.Rel (R n) o o') :
      Option.Rel (fun id id' => ∀ n, R n id id') o o' := by
    cases h 0 with
    | none => exact .none
    | some =>
      refine .some fun n => ?_
      cases h n with
      | some h => exact h
  cases h 0 with
  | scalar s => exact .scalar s
  | string => exact .string
  | list =>
    refine .list fun n => ?_
    cases h n with
    | list same => exact same
    | valueless left => cases left
  | tuple =>
    refine .tuple (forall₂_forall fun n => ?_)
    cases h n with
    | tuple same => exact same
    | valueless left => cases left
  | option =>
    refine .option fun n => ?_
    cases h n with
    | option same => exact same
    | valueless left => cases left
  | result =>
    refine .result (hpayload fun n => ?_) (hpayload fun n => ?_)
    all_goals
      cases h n with
      | result => assumption
      | valueless left => cases left
  | @record _ _ fields fields' =>
    have hfields (n : Nat) :
        List.Forall₂ (fun f f' => f.1 = f'.1 ∧ R n f.2 f'.2) fields fields' := by
      cases h n with
      | record same => exact same
      | valueless left => cases left
    exact .record ((forall₂_forall hfields).imp fun _ _ hf => ⟨(hf 0).1, fun n => (hf n).2⟩)
  | @variant _ _ cases cases' =>
    have hcases (n : Nat) :
        List.Forall₂ (fun c c' => c.1 = c'.1 ∧ Option.Rel (R n) c.2 c'.2) cases cases' := by
      cases h n with
      | variant same => exact same
      | valueless left => cases left
    exact .variant ((forall₂_forall hcases).imp fun _ _ hc =>
      ⟨(hc 0).1, hpayload fun n => (hc n).2⟩)
  | enum cases => exact .enum cases
  | flags labels => exact .flags labels
  | resource => exact .resource
  | borrow => exact .borrow
  | valueless left right kind => exact .valueless left right kind

theorem Alike.refl (hR : ∀ id, R id id) (h : node.isReference = false) : node.Alike R node := by
  have hpayload (o : Option TypeId) : Option.Rel R o o := by
    cases o with
    | none => exact .none
    | some id => exact .some (hR id)
  cases node with
  | scalar s => exact .scalar s
  | string => exact .string
  | list element => exact .list (hR element)
  | tuple elements => exact .tuple (List.forall₂_same.2 fun id _ => hR id)
  | option payload => exact .option (hR payload)
  | result ok err => exact .result (hpayload ok) (hpayload err)
  | record name fields => exact .record (List.forall₂_same.2 fun f _ => ⟨rfl, hR f.2⟩)
  | variant name cases => exact .variant (List.forall₂_same.2 fun c _ => ⟨rfl, hpayload c.2⟩)
  | enum name cases => exact .enum cases
  | flags name labels => exact .flags labels
  | resource => exact .resource
  | borrow => exact .borrow
  | function | interface | world | stream | future => exact .valueless rfl rfl rfl
  | reference => cases h

end TypeNode

theorem Shape.ofNode_of_isValueless {inner : TypeId → Shape} {node : TypeNode}
    (h : node.isValueless = true) :
    Shape.ofNode inner node = .unsupported node.kind node.title := by
  cases node <;> first | rfl | cases h

/-- Nodes are unfolded alike if their components are. -/
theorem TypeNode.Alike.ofNode {R : TypeId → TypeId → Prop} {node node' : TypeNode}
    {inner inner' : TypeId → Shape} (h : node.Alike R node')
    (hinner : ∀ id id', R id id' → (inner id).Alike R (inner' id')) :
    (Shape.ofNode inner node).Alike R (Shape.ofNode inner' node') := by
  have hfields {fields fields' : List (String × TypeId)}
      (h : List.Forall₂ (fun f f' => f.1 = f'.1 ∧ R f.2 f'.2) fields fields') :
      Shape.FieldsAlike R (fields.map fun f => (f.1, inner f.2))
        (fields'.map fun f => (f.1, inner' f.2)) :=
    Shape.fieldsAlike_iff.2 (forall₂_map_iff.2 (h.imp fun _ _ hf => ⟨hf.1, hinner _ _ hf.2⟩))
  have hpayload {o o' : Option TypeId} (h : Option.Rel R o o') :
      Option.Rel (Shape.Alike R) (o.map inner) (o'.map inner') := by
    cases h with
    | none => exact .none
    | some h => exact .some (hinner _ _ h)
  have hcases {cases cases' : List (String × Option TypeId)}
      (h : List.Forall₂ (fun c c' => c.1 = c'.1 ∧ Option.Rel R c.2 c'.2) cases cases') :
      Shape.CasesAlike R (cases.map fun c => (c.1, c.2.map inner))
        (cases'.map fun c => (c.1, c.2.map inner')) :=
    Shape.casesAlike_iff.2 (forall₂_map_iff.2 (h.imp fun _ _ hc => ⟨hc.1, hpayload hc.2⟩))
  cases h with
  | scalar s => exact .leaf (.refl _)
  | string => exact .string
  | list element => exact .list element
  | tuple elements =>
    refine .product .tuple (Shape.fieldsAlike_iff.2 (forall₂_map_iff.2 ?_))
    exact elements.imp fun _ _ he => ⟨rfl, hinner _ _ he⟩
  | option payload => exact .sum .option (.bare (.payload (hinner _ _ payload) .nil))
  | result ok err =>
    exact .sum .result (@hcases [("ok", _), ("error", _)] [("ok", _), ("error", _)]
      (.cons ⟨rfl, ok⟩ (.cons ⟨rfl, err⟩ .nil)))
  | record fields => exact .product .record (hfields fields)
  | variant cases => exact .sum .variant (hcases cases)
  | enum cases => exact .leaf (.refl _)
  | flags labels => exact .leaf .flags
  | resource => exact .leaf (.refl _)
  | borrow => exact .leaf (.refl _)
  | valueless left right kind =>
    rw [Shape.ofNode_of_isValueless left, Shape.ofNode_of_isValueless right, kind]
    exact .unsupported (.unsupported kind)

/-! ### Types -/

namespace Abi

variable {abi abi' : Abi} {R : TypeId → TypeId → Prop} {id id' resolved : TypeId} {node : TypeNode}

/-- Related types stand for nodes that are alike, or there is the same reason why they stand for
nothing. -/
def Bisimulation (abi abi' : Abi) (R : TypeId → TypeId → Prop) : Prop :=
  ∀ id id', R id id' → SameAnswer (fun found found' => found.2.Alike R found'.2)
    (abi.lookup id) (abi'.lookup id')

/-- Two types, of the same graph or of different ones, have the same structure. -/
def Alike (abi abi' : Abi) (id id' : TypeId) : Prop :=
  ∃ R, abi.Bisimulation abi' R ∧ R id id'

/-- Having the same structure goes over to the components. -/
theorem bisimulation_alike (abi abi' : Abi) : abi.Bisimulation abi' (abi.Alike abi') := by
  rintro id id' ⟨R, hR, h⟩
  exact (hR id id' h).imp fun _ _ hnode => hnode.mono fun part part' hpart => ⟨R, hR, hpart⟩

theorem Alike.lookup (h : abi.Alike abi' id id') :
    SameAnswer (fun found found' => found.2.Alike (abi.Alike abi') found'.2)
      (abi.lookup id) (abi'.lookup id') :=
  bisimulation_alike abi abi' id id' h

/-- The unfoldings of two types, into lists as well, are the same to the given depth. -/
def AlikeTo (abi abi' : Abi) : Nat → TypeId → TypeId → Prop
  | 0, _, _ => True
  | depth + 1, id, id' =>
    SameAnswer (fun found found' => found.2.Alike (AlikeTo abi abi' depth) found'.2)
      (abi.lookup id) (abi'.lookup id')

/-- Two types have the same structure exactly if their unfoldings are the same to every depth. -/
theorem alike_iff_forall_alikeTo : abi.Alike abi' id id' ↔ ∀ n, abi.AlikeTo abi' n id id' := by
  constructor
  · intro h n
    induction n generalizing id id' with
    | zero => trivial
    | succ n ih => exact h.lookup.imp fun _ _ hnode => hnode.mono fun _ _ => ih
  · refine fun h => ⟨fun id id' => ∀ n, abi.AlikeTo abi' n id id', fun id id' h => ?_, h⟩
    have hlookup (n : Nat) : SameAnswer _ (abi.lookup id) (abi'.lookup id') := h (n + 1)
    generalize abi.lookup id = x at hlookup ⊢
    generalize abi'.lookup id' = y at hlookup ⊢
    cases hlookup 0 with
    | error alike => exact .error alike
    | ok =>
      refine .ok (.of_forall fun n => ?_)
      cases hlookup n with
      | ok related => exact related

theorem Alike.symm (h : abi.Alike abi' id id') : abi'.Alike abi id' id := by
  obtain ⟨R, hR, h⟩ := h
  exact ⟨flip R, fun id' id h => (hR id id' h).flip.imp fun _ _ hnode => hnode.symm, h⟩

/-- What a type has the same structure as only depends on what it stands for, however many
references lead there. -/
theorem alike_iff_of_lookup_eq {other : TypeId} (hsame : abi.lookup id = abi.lookup other) :
    abi.Alike abi' id id' ↔ abi.Alike abi' other id' := by
  suffices hone : ∀ {id other}, abi.lookup id = abi.lookup other → abi.Alike abi' id id' →
      abi.Alike abi' other id' from ⟨hone hsame, hone hsame.symm⟩
  rintro id other hsame ⟨R, hR, h⟩
  refine ⟨fun a b => R a b ∨ a = other ∧ b = id', ?_, .inr ⟨rfl, rfl⟩⟩
  have hlift {a b : TypeId} (h : R a b) : SameAnswer
      (fun found found' => found.2.Alike (fun a b => R a b ∨ a = other ∧ b = id') found'.2)
      (abi.lookup a) (abi'.lookup b) :=
    (hR a b h).imp fun _ _ hnode => hnode.mono fun _ _ => .inl
  rintro a b (hab | ⟨rfl, rfl⟩)
  · exact hlift hab
  · exact hsame ▸ hlift h

theorem alike_refl (abi : Abi) (id : TypeId) : abi.Alike abi id id := by
  refine ⟨Eq, ?_, rfl⟩
  rintro id _ rfl
  cases hid : abi.lookup id with
  | error e => exact .error (.refl e)
  | ok found => exact .ok (.refl (fun _ => rfl) (isReference_of_lookup hid))

/-- A type has the same structure as the node that references lead to from it. -/
theorem alike_of_lookup (h : abi.lookup id = .ok (resolved, node)) : abi.Alike abi id resolved :=
  (alike_iff_of_lookup_eq (h.trans (lookup_resolved h).symm)).2 (abi.alike_refl resolved)

end Abi

end ComponentAbi
