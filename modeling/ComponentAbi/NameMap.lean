/-!
# Maps keyed by names

Finite maps from names to values, kept in the order of the names.

* `NameMap.find?_insert`: a map after one insertion.
-/

namespace ComponentAbi

/-- A map from names, as its entries in ascending order of the names. -/
structure NameMap (α : Type) where
  /-- The entries; no name occurs twice. -/
  entries : List (String × α) := []
deriving Repr, Inhabited, DecidableEq

namespace NameMap

variable {α : Type}

/-- The map without entries. -/
def empty : NameMap α := {}

/-- The value of a name. -/
def find? (m : NameMap α) (name : String) : Option α :=
  m.entries.lookup name

/-- Puts an entry into an ordered list of entries, in place of an older one of the same name. -/
def insertEntry (name : String) (value : α) : List (String × α) → List (String × α)
  | [] => [(name, value)]
  | (other, old) :: rest =>
    if name = other then (name, value) :: rest
    else if name < other then (name, value) :: (other, old) :: rest
    else (other, old) :: insertEntry name value rest

/-- Sets the value of a name. -/
def insert (m : NameMap α) (name : String) (value : α) : NameMap α :=
  ⟨insertEntry name value m.entries⟩

/-- Adds all entries of `later`, which replace earlier ones. -/
def merge (m later : NameMap α) : NameMap α :=
  later.entries.foldl (fun acc (name, value) => acc.insert name value) m

/-- The values in the order of their names. -/
def values (m : NameMap α) : List α :=
  m.entries.map (·.2)

theorem lookup_insertEntry (name key : String) (value : α) (entries : List (String × α)) :
    (insertEntry name value entries).lookup key =
      if key = name then some value else entries.lookup key := by
  induction entries with
  | nil =>
    by_cases h : key = name
    · simp [insertEntry, h]
    · have differ : (key == name) = false := by simpa using h
      simp [insertEntry, List.lookup_cons, differ, h]
  | cons entry rest ih =>
    obtain ⟨other, old⟩ := entry
    by_cases same : name = other
    · subst same
      by_cases h : key = name
      · simp [insertEntry, h]
      · have differ : (key == name) = false := by simpa using h
        simp [insertEntry, List.lookup_cons, differ, h]
    · by_cases before : name < other
      · by_cases h : key = name
        · simp [insertEntry, same, before, h]
        · have differ : (key == name) = false := by simpa using h
          simp [insertEntry, same, before, List.lookup_cons, differ, h]
      · by_cases h : key = other
        · subst h
          simp [insertEntry, same, before, Ne.symm same]
        · have differ : (key == other) = false := by simpa using h
          simp [insertEntry, same, before, List.lookup_cons, differ, ih]

theorem find?_insert (m : NameMap α) (name key : String) (value : α) :
    (m.insert name value).find? key = if key = name then some value else m.find? key :=
  lookup_insertEntry name key value m.entries

end NameMap

end ComponentAbi
