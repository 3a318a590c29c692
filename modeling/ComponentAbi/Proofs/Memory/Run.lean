import ComponentAbi.Memory

/-!
# Running memory steps

`MemoryM.runOn` runs a step on a memory and gives its answer and the memory it leaves. The lemmas
below take a run apart along the way its step is built, so that no later proof has to look into the
monad:

* `MemoryM.runOn_bind`, `MemoryM.runOn_bind_of_ok`, `MemoryM.runOn_bind_eq_ok` : one step after
  another;
* `MemoryM.runOn_alloc`, `MemoryM.runOn_write`, `MemoryM.runOn_free`, `MemoryM.runOn_reading` : the
  steps that touch the memory;
* `MemoryM.runOn_guarded` : a step that leaves no block behind when it fails.
-/

namespace ComponentAbi

namespace MemoryM

variable {α β : Type}

/-- The answer of a step on a memory, and the memory afterwards. -/
def runOn (x : MemoryM α) (m : Memory) : Except AbiError α × Memory :=
  StateT.run (ExceptT.run x) m

@[simp] theorem runOn_pure (a : α) (m : Memory) : runOn (pure a) m = (.ok a, m) :=
  rfl

@[simp] theorem runOn_liftM (x : Except AbiError α) (m : Memory) :
    runOn (liftM x : MemoryM α) m = (x, m) :=
  rfl

@[simp] theorem runOn_get (m : Memory) : runOn get m = (.ok m, m) :=
  rfl

theorem runOn_bind (x : MemoryM α) (f : α → MemoryM β) (m : Memory) :
    runOn (x >>= f) m =
      match runOn x m with
      | (.ok a, m') => runOn (f a) m'
      | (.error e, m') => (.error e, m') := by
  unfold runOn ExceptT.run StateT.run
  simp only [bind, ExceptT.bind, ExceptT.mk, StateT.bind, ExceptT.bindCont]
  cases x m with
  | mk r m' => cases r <;> rfl

theorem runOn_bind_of_ok {x : MemoryM α} {m m' : Memory} {a : α} (h : runOn x m = (.ok a, m'))
    (f : α → MemoryM β) : runOn (x >>= f) m = runOn (f a) m' := by
  rw [runOn_bind, h]

theorem runOn_bind_liftM {x : Except AbiError α} {a : α} (h : x = .ok a) (f : α → MemoryM β)
    (m : Memory) : runOn (liftM x >>= f) m = runOn (f a) m := by
  rw [h, runOn_bind_of_ok (runOn_liftM _ m)]

theorem runOn_bind_of_error {x : MemoryM α} {m m' : Memory} {e : AbiError}
    (h : runOn x m = (.error e, m')) (f : α → MemoryM β) :
    runOn (x >>= f) m = (.error e, m') := by
  rw [runOn_bind, h]

/-- A sequence succeeds if its first step does and the rest does afterwards. -/
theorem runOn_bind_eq_ok {x : MemoryM α} {f : α → MemoryM β} {m m' : Memory} {b : β} :
    runOn (x >>= f) m = (.ok b, m') ↔
      ∃ a m₁, runOn x m = (.ok a, m₁) ∧ runOn (f a) m₁ = (.ok b, m') := by
  rw [runOn_bind]
  obtain ⟨r, m₁⟩ := runOn x m
  cases r with
  | error e => simp
  | ok a =>
    constructor
    · exact fun h => ⟨a, m₁, rfl, h⟩
    · rintro ⟨_, _, h, h'⟩
      cases h
      exact h'

theorem runOn_bind_liftM_eq_ok {x : Except AbiError α} {f : α → MemoryM β} {m m' : Memory} {b : β} :
    runOn (liftM x >>= f) m = (.ok b, m') ↔ ∃ a, x = .ok a ∧ runOn (f a) m = (.ok b, m') := by
  rw [runOn_bind_eq_ok]
  constructor
  · rintro ⟨a, m₁, hx, hf⟩
    cases hx
    exact ⟨a, rfl, hf⟩
  · rintro ⟨a, rfl, hf⟩
    exact ⟨a, m, rfl, hf⟩

/-- Whatever the outcome of the first step is. -/
theorem runOn_bind_cases {x : MemoryM α} {f : α → MemoryM β} {m : Memory}
    {Q : Except AbiError β × Memory → Prop}
    (herror : ∀ e m', runOn x m = (.error e, m') → Q (.error e, m'))
    (hok : ∀ a m', runOn x m = (.ok a, m') → Q (runOn (f a) m')) : Q (runOn (x >>= f) m) := by
  rw [runOn_bind]
  cases h : runOn x m with
  | mk r m₁ =>
    cases r with
    | ok a => exact hok a m₁ h
    | error e => exact herror e m₁ h

theorem runOn_map (g : α → β) (x : MemoryM α) (m : Memory) :
    runOn (g <$> x) m = ((runOn x m).1.map g, (runOn x m).2) := by
  rw [show g <$> x = x >>= fun a => pure (g a) from (bind_pure_comp g x).symm, runOn_bind]
  obtain ⟨r, m'⟩ := runOn x m
  cases r <;> rfl

@[simp] theorem runOn_alloc (size align : Nat) (m : Memory) :
    runOn (alloc size align) m = (.ok (m.alloc size align).1, (m.alloc size align).2) :=
  rfl

theorem runOn_update (change : Memory → Except AbiError Memory) (m : Memory) :
    runOn (update change) m =
      match change m with
      | .ok m' => (.ok (), m')
      | .error e => (.error e, m) := by
  rw [update, runOn_bind_of_ok (runOn_get m)]
  cases change m <;> rfl

theorem runOn_write (pointer : Nat) (data : List UInt8) (m : Memory) :
    runOn (write pointer data) m =
      match m.write pointer data with
      | .ok m' => (.ok (), m')
      | .error e => (.error e, m) :=
  runOn_update _ m

theorem runOn_free (pointer size align : Nat) (m : Memory) :
    runOn (free pointer size align) m =
      match m.free pointer size align with
      | .ok m' => (.ok (), m')
      | .error e => (.error e, m) :=
  runOn_update _ m

@[simp] theorem runOn_reading (look : Memory → Except AbiError α) (m : Memory) :
    runOn (reading look) m = (look m, m) := by
  rw [reading, runOn_bind_of_ok (runOn_get m)]
  cases look m <;> rfl

/-- A guarded step that fails frees what was handed out during it; otherwise the guard changes
nothing. -/
theorem runOn_guarded (x : MemoryM α) (m : Memory) :
    runOn (guarded x) m =
      match runOn x m with
      | (.ok a, m') => (.ok a, m')
      | (.error e, m') => (.error e, (m'.releaseSince m.mark).2) := by
  rw [guarded, runOn_bind_of_ok (runOn_get m)]
  unfold runOn ExceptT.run StateT.run
  simp only [tryCatch, tryCatchThe, MonadExceptOf.tryCatch, ExceptT.tryCatch, ExceptT.mk, bind,
    StateT.bind]
  cases x m with
  | mk r m' => cases r <;> rfl

theorem runOn_of_guarded_ok {x : MemoryM α} {m m' : Memory} {a : α}
    (h : runOn (guarded x) m = (.ok a, m')) : runOn x m = (.ok a, m') := by
  rw [runOn_guarded] at h
  split at h
  · rename_i hx
    rw [hx, h]
  · cases h

theorem runOn_guarded_of_ok {x : MemoryM α} {m m' : Memory} {a : α}
    (h : runOn x m = (.ok a, m')) : runOn (guarded x) m = (.ok a, m') := by
  rw [runOn_guarded, h]

/-! ### Success -/

/-- There is a memory that the step succeeds on. -/
def Succeeds (x : MemoryM α) : Prop :=
  ∃ m a m', runOn x m = (.ok a, m')

theorem Succeeds.of_runOn {x : MemoryM α} {m m' : Memory} {a : α} (h : runOn x m = (.ok a, m')) :
    x.Succeeds :=
  ⟨m, a, m', h⟩

theorem not_succeeds_throw (e : AbiError) : ¬(throw e : MemoryM α).Succeeds := by
  rintro ⟨m, a, m', h⟩
  cases h

theorem Succeeds.bind {x : MemoryM α} {f : α → MemoryM β} (h : (x >>= f).Succeeds) :
    x.Succeeds ∧ ∃ a, (f a).Succeeds := by
  obtain ⟨m, b, m', h⟩ := h
  obtain ⟨a, m₁, hx, hf⟩ := runOn_bind_eq_ok.1 h
  exact ⟨⟨m, a, m₁, hx⟩, a, m₁, b, m', hf⟩

theorem Succeeds.bind_liftM {x : Except AbiError α} {f : α → MemoryM β}
    (h : (liftM x >>= f).Succeeds) : ∃ a, x = .ok a ∧ (f a).Succeeds := by
  obtain ⟨m, b, m', h⟩ := h
  obtain ⟨a, m₁, hx, hf⟩ := runOn_bind_eq_ok.1 h
  rw [runOn_liftM] at hx
  obtain ⟨rfl, rfl⟩ := Prod.mk.inj hx
  exact ⟨a, rfl, m, b, m', hf⟩

theorem Succeeds.forM {xs : List α} {f : α → MemoryM PUnit} (h : (xs.forM f).Succeeds) {x : α}
    (hx : x ∈ xs) : (f x).Succeeds := by
  induction xs with
  | nil => cases hx
  | cons y xs ih =>
    obtain ⟨hy, -, hxs⟩ := Succeeds.bind (x := f y) (f := fun _ => xs.forM f) h
    rcases List.mem_cons.1 hx with rfl | hx
    · exact hy
    · exact ih hxs hx

theorem Succeeds.mapM {xs : List α} {f : α → MemoryM β} (h : (xs.mapM f).Succeeds) {x : α}
    (hx : x ∈ xs) : (f x).Succeeds := by
  induction xs with
  | nil => cases hx
  | cons y xs ih =>
    rw [List.mapM_cons] at h
    obtain ⟨hy, z, h⟩ := h.bind
    rcases List.mem_cons.1 hx with rfl | hx
    · exact hy
    · exact ih h.bind.1 hx

end MemoryM

end ComponentAbi
