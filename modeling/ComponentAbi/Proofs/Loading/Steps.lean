import ComponentAbi.Loader
import ComponentAbi.Proofs.Arena
import ComponentAbi.Proofs.Except

/-!
# What loading steps give

`LoadM.Gives` says what a step answers and which project it leaves. The lemmas below take a step
apart along the way it is built (`LoadM.gives_bind`, `LoadM.gives_alloc` and those around them).
-/

namespace ComponentAbi

/-! ### References -/

section References

variable {scope package : PackageRef} {reference name : String} {parsed : PackageRef}

theorem splitReference_of_identifier (hparse : PackageRef.parse reference = .ok parsed)
    (hns : parsed.name.namespaces = []) :
    splitReference scope reference = .ok (scope, reference) := by
  have honly : parsed.isIdentifierOnly = true := by
    simp [PackageRef.isIdentifierOnly, PackageName.isIdentifierOnly, hns]
  rw [splitReference, hparse]
  simp [Except.mapError, bind, Except.bind, honly]
  rfl

theorem splitReference_of_namespaces (hparse : PackageRef.parse reference = .ok parsed)
    (hns : parsed.name.namespaces ≠ []) (hlast : parsed.splitLast? = some (name, package)) :
    splitReference scope reference = .ok (package, name) := by
  have honly : parsed.isIdentifierOnly = false := by
    simp [PackageRef.isIdentifierOnly, PackageName.isIdentifierOnly, hns]
  rw [splitReference, hparse]
  simp [Except.mapError, bind, Except.bind, honly, hlast]
  rfl

end References

/-! ### Steps -/

namespace LoadM

variable {α β σ : Type} {p q r : Project}

/-- On the project `p`, the step answers `a` and leaves `q`. -/
def Gives (x : LoadM α) (p : Project) (a : α) (q : Project) : Prop :=
  x.run.run p = (.ok a, q)

theorem gives_pure {a b : α} : (pure a : LoadM α).Gives p b q ↔ b = a ∧ q = p := by
  constructor
  · intro h
    cases h
    exact ⟨rfl, rfl⟩
  · rintro ⟨rfl, rfl⟩
    rfl

theorem not_gives_throw {e : LoadError} {a : α} : ¬(throw e : LoadM α).Gives p a q := by
  intro h
  cases h

theorem gives_liftM {x : Except LoadError α} {a : α} :
    (liftM x : LoadM α).Gives p a q ↔ x = .ok a ∧ q = p := by
  constructor
  · intro h
    cases h
    exact ⟨rfl, rfl⟩
  · rintro ⟨rfl, rfl⟩
    rfl

theorem gives_bind {x : LoadM α} {f : α → LoadM β} {b : β} :
    (x >>= f).Gives p b r ↔ ∃ a q, x.Gives p a q ∧ (f a).Gives q b r := by
  unfold Gives
  simp only [bind, ExceptT.bind, ExceptT.mk, ExceptT.run, StateT.run, StateT.bind, ExceptT.bindCont]
  obtain ⟨answer, q⟩ := x p
  cases answer with
  | error e =>
    constructor
    · intro h
      cases h
    · rintro ⟨a, q', h, -⟩
      cases h
  | ok a =>
    constructor
    · exact fun h => ⟨a, q, rfl, h⟩
    · rintro ⟨a', q', h, h'⟩
      cases h
      exact h'

theorem gives_bind_liftM {x : Except LoadError α} {f : α → LoadM β} {b : β} :
    ((liftM x : LoadM α) >>= f).Gives p b q ↔ ∃ a, x = .ok a ∧ (f a).Gives p b q := by
  rw [gives_bind]
  constructor
  · rintro ⟨a, p', ha, hb⟩
    obtain ⟨hx, rfl⟩ := gives_liftM.1 ha
    exact ⟨a, hx, hb⟩
  · rintro ⟨a, hx, hb⟩
    exact ⟨a, p, gives_liftM.2 ⟨hx, rfl⟩, hb⟩

theorem gives_alloc {node : TypeNode} {id : TypeId} :
    (alloc node).Gives p id q ↔
      id = (p.arena.alloc node).1 ∧ q = { p with arena := (p.arena.alloc node).2 } := by
  constructor
  · intro h
    cases h
    exact ⟨rfl, rfl⟩
  · rintro ⟨rfl, rfl⟩
    rfl

theorem gives_mapM_nil {f : α → LoadM β} {ys : List β} :
    ([].mapM f).Gives p ys q ↔ ys = [] ∧ q = p := by
  rw [List.mapM_nil, gives_pure]

theorem gives_mapM_cons {f : α → LoadM β} {x : α} {xs : List α} {zs : List β} :
    ((x :: xs).mapM f).Gives p zs r ↔
      ∃ y q ys, (f x).Gives p y q ∧ (xs.mapM f).Gives q ys r ∧ zs = y :: ys := by
  rw [List.mapM_cons, gives_bind]
  constructor
  · rintro ⟨y, q, hy, h⟩
    obtain ⟨ys, r', hys, h⟩ := gives_bind.1 h
    obtain ⟨rfl, rfl⟩ := gives_pure.1 h
    exact ⟨y, q, ys, hy, hys, rfl⟩
  · rintro ⟨y, q, ys, hy, hys, rfl⟩
    exact ⟨y, q, hy, gives_bind.2 ⟨ys, r, hys, gives_pure.2 ⟨rfl, rfl⟩⟩⟩

theorem gives_foldlM_nil {f : β → α → LoadM β} {b c : β} :
    ([].foldlM f b).Gives p c q ↔ c = b ∧ q = p := by
  rw [List.foldlM_nil, gives_pure]

theorem gives_foldlM_cons {f : β → α → LoadM β} {x : α} {xs : List α} {b c : β} :
    ((x :: xs).foldlM f b).Gives p c r ↔
      ∃ mid q, (f b x).Gives p mid q ∧ (xs.foldlM f mid).Gives q c r := by
  rw [List.foldlM_cons, gives_bind]

/-- What holds of the items that were handled, and is extended by every step, holds of all items. -/
theorem gives_foldlM_induction {f : β → α → LoadM β} {P : List α → β → Project → Prop}
    (h : ∀ done x b p c q, P done b p → (f b x).Gives p c q → P (done ++ [x]) c q) {b c : β}
    {xs : List α} (hb : P [] b p) (hgives : (xs.foldlM f b).Gives p c q) : P xs c q := by
  suffices hall : ∀ done b p, P done b p → (xs.foldlM f b).Gives p c q → P (done ++ xs) c q from
    hall [] b p hb hgives
  clear hb hgives
  induction xs with
  | nil =>
    intro done b p hb hgives
    obtain ⟨rfl, rfl⟩ := gives_foldlM_nil.1 hgives
    rwa [List.append_nil]
  | cons x rest ih =>
    intro done b p hb hgives
    obtain ⟨mid, r, hx, hrest⟩ := gives_foldlM_cons.1 hgives
    have := ih (done ++ [x]) mid r (h done x b p mid r hb hx) hrest
    rwa [List.append_assoc] at this

/-- What every step keeps is kept by all of them. -/
theorem gives_foldlM_invariant {f : β → α → LoadM β} {P : β → Prop} {xs : List α}
    (h : ∀ x b p c q, P b → (f b x).Gives p c q → P c) {b c : β} (hb : P b)
    (hgives : (xs.foldlM f b).Gives p c q) : P c :=
  gives_foldlM_induction (P := fun _ b _ => P b) (fun _ => h) hb hgives

end LoadM

end ComponentAbi
