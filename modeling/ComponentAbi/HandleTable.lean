import ComponentAbi.AbiError

/-!
# Handle tables

Live resources indexed by opaque handles. Handles start at 1 and are never reused, so a stale handle
never names a newer resource.
-/

namespace ComponentAbi

/-- Live representations with their handles, and the next handle to give out. -/
structure HandleTable (α : Type) where
  /-- Handles and representations, the oldest first. -/
  entries : List (Nat × α) := []
  /-- The handle of the next insert. -/
  next : Nat := 1
deriving Repr

namespace HandleTable

variable {α : Type}

/-- Number of live resources. -/
def size (t : HandleTable α) : Nat :=
  t.entries.length

/-- No resource is live. -/
def isEmpty (t : HandleTable α) : Bool :=
  t.entries.isEmpty

/-- Adds a resource and answers its new handle. -/
def insert (t : HandleTable α) (rep : α) : Nat × HandleTable α :=
  (t.next, { entries := t.entries ++ [(t.next, rep)], next := t.next + 1 })

/-- The representation behind a handle. -/
def get (t : HandleTable α) (handle : Nat) : Except AbiError α :=
  match t.entries.lookup handle with
  | some rep => .ok rep
  | none => .error (.handleNotFound handle)

/-- The handle names a live resource. -/
def contains (t : HandleTable α) (handle : Nat) : Bool :=
  (t.entries.lookup handle).isSome

/-- Changes the representation behind a handle. -/
def update (t : HandleTable α) (handle : Nat) (change : α → α) :
    Except AbiError (HandleTable α) := do
  let _ ← t.get handle
  let entries := t.entries.map fun (h, rep) => (h, if h = handle then change rep else rep)
  return { t with entries }

/-- Gives a resource up and answers its representation. -/
def drop (t : HandleTable α) (handle : Nat) : Except AbiError (α × HandleTable α) := do
  let rep ← t.get handle
  return (rep, { t with entries := t.entries.filter (·.1 ≠ handle) })

end HandleTable

end ComponentAbi
