import ComponentAbi.HandleTable
import ComponentAbi.Proofs.Except
import Mathlib.Data.List.Nodup

/-!
# Histories of a handle table

A handle table is asked for things one after the other, and what it was asked and what it answered
is its history. The history alone says which handles were given out (`HandleTable.issued`), which of
them were given up (`HandleTable.dropped`), and what is behind the others: what was inserted, with
the changes that were made to it since (`HandleTable.held`). `HandleTable.Kept` says that the table
holds exactly that.

* `HandleTable.Kept.step`, `HandleTable.Kept.run` : every request keeps the table in step with the
  history, and so does a whole run;
* `HandleTable.Kept.due` : what a table in step with its history answers is what the history asks
  for;
* `HandleTable.answers_due` : so every answer in every run is the one that the history asks for, and
  a request leaves alone what is behind the handles that it is not about.
-/

namespace ComponentAbi

namespace HandleTable

variable {α : Type}

/-! ### Requests and their history -/

/-- What can be asked of a table. -/
inductive Request (α : Type) where
  /-- A handle for a new resource. -/
  | insert (rep : α)
  /-- The representation behind a handle. -/
  | get (handle : Nat)
  /-- That the representation behind a handle is changed. -/
  | update (handle : Nat) (change : α → α)
  /-- That a resource is given up. -/
  | drop (handle : Nat)
  /-- Whether a handle names a live resource. -/
  | contains (handle : Nat)
  /-- The number of live resources. -/
  | size

/-- What a table answers. -/
inductive Reply (α : Type) where
  | handle (handle : Nat)
  | representation (rep : α)
  | live (live : Bool)
  | count (resources : Nat)

/-- Does what is asked. A change is answered with what it made of the representation. -/
def Request.serve (t : HandleTable α) : Request α → Except AbiError (Reply α × HandleTable α)
  | insert rep => .ok (.handle (t.insert rep).1, (t.insert rep).2)
  | get handle => do return (.representation (← t.get handle), t)
  | update handle change => do
    let changed ← t.update handle change
    return (.representation (← changed.get handle), changed)
  | drop handle => do
    let (rep, rest) ← t.drop handle
    return (.representation rep, rest)
  | contains handle => .ok (.live (t.contains handle), t)
  | size => .ok (.count t.size, t)

/-- The answer to a request, and the table afterwards. -/
def Request.run (request : Request α) (t : HandleTable α) :
    Except AbiError (Reply α) × HandleTable α :=
  match request.serve t with
  | .ok (reply, t') => (.ok reply, t')
  | .error e => (.error e, t)

/-- A request and what came of it. -/
structure Event (α : Type) where
  /-- What was asked. -/
  request : Request α
  /-- What was answered. -/
  reply : Except AbiError (Reply α)

/-- What happens when a table is asked for some things in order, and the table afterwards. -/
def serveAll : List (Request α) → HandleTable α → List (Event α) × HandleTable α
  | [], t => ([], t)
  | request :: rest, t =>
    let (reply, t') := request.run t
    let (events, last) := serveAll rest t'
    (⟨request, reply⟩ :: events, last)

/-- The handle that was given out, with what it was given out for. -/
def Event.entry : Event α → List (Nat × α)
  | ⟨.insert rep, .ok (.handle handle)⟩ => [(handle, rep)]
  | _ => []

/-- The handle that was given up. -/
def Event.givenUp : Event α → List Nat
  | ⟨.drop handle, .ok _⟩ => [handle]
  | _ => []

/-- The change that was made to what is behind a handle. -/
def Event.change (handle : Nat) : Event α → List (α → α)
  | ⟨.update changed change, .ok _⟩ => if changed = handle then [change] else []
  | _ => []

/-- The handle that an event is about. -/
def Event.subject : Event α → Option Nat
  | ⟨.insert _, .ok (.handle handle)⟩ => some handle
  | ⟨.get handle, _⟩ | ⟨.update handle _, _⟩ | ⟨.drop handle, _⟩ | ⟨.contains handle, _⟩ =>
    some handle
  | _ => none

/-- The handles that were given out with what they were given out for, the oldest first. -/
def inserted (events : List (Event α)) : List (Nat × α) :=
  events.flatMap Event.entry

/-- The handles that were given out, the oldest first. -/
def issued (events : List (Event α)) : List Nat :=
  (inserted events).map Prod.fst

/-- The handles that were given up, the oldest first. -/
def dropped (events : List (Event α)) : List Nat :=
  events.flatMap Event.givenUp

/-- What the changes to a handle made of a representation. -/
def changed (events : List (Event α)) (handle : Nat) (rep : α) : α :=
  (events.flatMap (Event.change handle)).foldl (fun rep change => change rep) rep

/-- What is behind a handle: what it was given out for, with all changes made to it. There is
nothing behind a handle that was not given out, or that was given up. -/
def held (events : List (Event α)) (handle : Nat) : Option α :=
  if handle ∈ dropped events then none
  else ((inserted events).lookup handle).map (changed events handle)

/-- What is behind a handle, or the refusal of one with nothing behind it. -/
def expected (events : List (Event α)) (handle : Nat) : Except AbiError α :=
  match held events handle with
  | some rep => .ok rep
  | none => .error (.handleNotFound handle)

/-- The answer of an event is the one that the events before ask for. -/
def Event.Due (before : List (Event α)) (e : Event α) : Prop :=
  match e.request with
  | .insert _ => ∃ handle, e.reply = .ok (.handle handle) ∧ handle ≠ 0 ∧ handle ∉ issued before
  | .get handle | .drop handle => e.reply = (expected before handle).map .representation
  | .update handle change =>
    e.reply = (expected before handle).map fun rep => .representation (change rep)
  | .contains handle => e.reply = .ok (.live (held before handle).isSome)
  | .size => ∃ live, e.reply = .ok (.count live) ∧
    live + (dropped before).length = (issued before).length

variable {t : HandleTable α} {events before after : List (Event α)} {e : Event α} {handle : Nat}

@[simp] theorem inserted_concat : inserted (events ++ [e]) = inserted events ++ e.entry := by
  simp [inserted]

@[simp] theorem issued_concat :
    issued (events ++ [e]) = issued events ++ e.entry.map Prod.fst := by
  simp [issued]

@[simp] theorem dropped_concat : dropped (events ++ [e]) = dropped events ++ e.givenUp := by
  simp [dropped]

@[simp] theorem changed_concat (rep : α) : changed (events ++ [e]) handle rep =
    (e.change handle).foldl (fun rep change => change rep) (changed events handle rep) := by
  simp [changed]

/-! ### Entries by their handles -/

theorem lookup_map_snd (f : Nat → α → α) (entries : List (Nat × α)) :
    (entries.map fun entry => (entry.1, f entry.1 entry.2)).lookup handle =
      (entries.lookup handle).map (f handle) := by
  induction entries with
  | nil => rfl
  | cons entry rest ih =>
    obtain ⟨key, rep⟩ := entry
    rw [List.map_cons, List.lookup_cons, List.lookup_cons, ih]
    by_cases h : handle = key
    · simp [h]
    · simp [beq_false_of_ne h]

theorem lookup_filter_fst (keep : Nat → Bool) (entries : List (Nat × α)) :
    (entries.filter fun entry => keep entry.1).lookup handle =
      if keep handle then entries.lookup handle else none := by
  induction entries with
  | nil => simp
  | cons entry rest ih =>
    obtain ⟨key, rep⟩ := entry
    by_cases h : handle = key
    · subst h
      by_cases hkeep : keep handle <;> simp [hkeep, ih]
    · by_cases hkeep : keep key <;> simp [hkeep, ih, List.lookup_cons, beq_false_of_ne h]

/-! ### Tables with one entry changed or removed -/

/-- The table with what is behind a handle changed. -/
def changeAt (t : HandleTable α) (handle : Nat) (change : α → α) : HandleTable α :=
  { t with entries := t.entries.map fun entry =>
      (entry.1, if entry.1 = handle then change entry.2 else entry.2) }

/-- The table without a handle. -/
def without (t : HandleTable α) (handle : Nat) : HandleTable α :=
  { t with entries := t.entries.filter (·.1 ≠ handle) }

@[simp] theorem changeAt_next {change : α → α} : (t.changeAt handle change).next = t.next := rfl

@[simp] theorem without_next : (t.without handle).next = t.next := rfl

theorem update_eq {change : α → α} :
    t.update handle change = (t.get handle).map fun _ => t.changeAt handle change := by
  rw [update]
  cases t.get handle <;> rfl

theorem drop_eq : t.drop handle = (t.get handle).map fun rep => (rep, t.without handle) := by
  rw [drop]
  cases t.get handle <;> rfl

theorem get_changeAt {change : α → α} (other : Nat) : (t.changeAt handle change).get other =
    (t.get other).map fun rep => if other = handle then change rep else rep := by
  rw [get, get, changeAt, lookup_map_snd fun key rep => if key = handle then change rep else rep]
  cases t.entries.lookup other <;> rfl

theorem get_without {other : Nat} (h : other ≠ handle) :
    (t.without handle).get other = t.get other := by
  rw [get, get, without, lookup_filter_fst fun key => decide (key ≠ handle),
    if_pos (decide_eq_true h)]

theorem get_insert {rep : α} (h : handle ≠ t.next) :
    (t.insert rep).2.get handle = t.get handle := by
  have hlast : [(t.next, rep)].lookup handle = none := by
    rw [List.lookup_cons, beq_false_of_ne h, List.lookup_nil]
  simp only [get, insert, List.lookup_append, hlast, Option.or_none]

/-! ### The table and its history -/

/-- The table has an entry for each handle that was given out and not given up, with what is behind
it. -/
structure Kept (events : List (Event α)) (t : HandleTable α) : Prop where
  /-- Entries are in the order in which they were inserted. -/
  entries : t.entries = ((inserted events).filter fun entry => entry.1 ∉ dropped events).map
    fun entry => (entry.1, changed events entry.1 entry.2)
  /-- Handles are given out in the order of the numbers, from 1 on. -/
  numbered : issued events = List.range' 1 (issued events).length
  /-- The next one is the number after them. -/
  next : t.next = (issued events).length + 1
  /-- Only handles that were given out are given up, and only once. -/
  givenUp : (dropped events).Nodup ∧ dropped events ⊆ issued events
  /-- Nothing was changed that is not there yet. -/
  unchanged : ∀ handle ∉ issued events, ∀ rep, changed events handle rep = rep

theorem kept_nil : Kept [] ({} : HandleTable α) where
  entries := rfl
  numbered := rfl
  next := rfl
  givenUp := ⟨List.nodup_nil, List.nil_subset _⟩
  unchanged _ _ _ := rfl

theorem Kept.lookup_eq (h : Kept events t) (handle : Nat) :
    t.entries.lookup handle = held events handle := by
  rw [h.entries, lookup_map_snd, lookup_filter_fst fun key => decide (key ∉ dropped events), held]
  by_cases hdropped : handle ∈ dropped events <;> simp [hdropped]

/-- The table answers what is behind a handle. -/
theorem Kept.get_eq (h : Kept events t) (handle : Nat) : t.get handle = expected events handle := by
  rw [get, h.lookup_eq]
  rfl

/-- The next handle is a new one. -/
theorem Kept.next_notMem (h : Kept events t) : t.next ∉ issued events := by
  rw [h.numbered, h.next, List.mem_range'_1]
  omega

/-- There are as many entries as handles that were given out and not given up. -/
theorem Kept.size_add (h : Kept events t) :
    t.size + (dropped events).length = (issued events).length := by
  have hnodup : (issued events).Nodup := h.numbered ▸ List.nodup_range'
  -- Only handles that were given out are given up, once each, so these are as many as the entries
  -- that are gone.
  have hback : ((issued events).filter (· ∈ dropped events)).Perm (dropped events) := by
    rw [List.perm_ext_iff_of_nodup (hnodup.filter _) h.givenUp.1]
    intro handle
    simpa using fun hhandle => h.givenUp.2 hhandle
  have hsize : t.size = ((issued events).filter (· ∉ dropped events)).length := by
    rw [size, h.entries, issued, List.filter_map, List.length_map, List.length_map]
    rfl
  have hsplit := List.length_eq_length_filter_add (l := issued events) (· ∈ dropped events)
  rw [hback.length_eq] at hsplit
  simp only [hsize, hsplit, decide_not]
  omega

/-- What has something behind it was given out and not given up. -/
theorem mem_of_held {rep : α} (h : held events handle = some rep) :
    handle ∈ issued events ∧ handle ∉ dropped events := by
  rw [held] at h
  split at h
  · cases h
  · rename_i hdropped
    obtain ⟨inserted, hlookup, -⟩ := Option.map_eq_some_iff.1 h
    obtain ⟨entry, hentry, heq⟩ := List.lookup_isSome_iff.1 (Option.isSome_of_eq_some hlookup)
    exact ⟨List.mem_map.2 ⟨entry, hentry, (beq_iff_eq.1 heq).symm⟩, hdropped⟩

theorem Kept.held_of_get (h : Kept events t) {rep : α} (hget : t.get handle = .ok rep) :
    held events handle = some rep := by
  rw [h.get_eq, expected] at hget
  split at hget
  · rename_i hheld
    cases hget
    exact hheld
  · cases hget

/-! ### Steps -/

/-- An event that gives nothing out or up, and changes nothing. -/
theorem Kept.idle (h : Kept events t) (hentry : e.entry = []) (hback : e.givenUp = [])
    (hchange : ∀ handle, e.change handle = []) : Kept (events ++ [e]) t where
  entries := by simp [hentry, hback, hchange, h.entries]
  numbered := by simpa [hentry] using h.numbered
  next := by simp [hentry, h.next]
  givenUp := by simpa [hentry, hback] using h.givenUp
  unchanged := by simpa [hentry, hchange] using h.unchanged

/-- The next handle is given out. -/
theorem Kept.insert (h : Kept events t) {rep : α} (hentry : e.entry = [(t.next, rep)])
    (hback : e.givenUp = []) (hchange : ∀ handle, e.change handle = []) :
    Kept (events ++ [e]) (t.insert rep).2 := by
  have hnew := h.next_notMem
  have hnot : t.next ∉ dropped events := fun hm => hnew (h.givenUp.2 hm)
  -- No change came before the handle, so the new entry is what is inserted.
  refine ⟨?_, ?_, ?_, ?_, fun handle hhandle rep => ?_⟩
  · simp [HandleTable.insert, hentry, hback, hchange, h.entries, hnot, h.unchanged _ hnew]
  · rw [issued_concat, hentry, List.length_append, List.map_singleton, List.length_singleton,
      List.range'_1_concat, ← h.numbered, h.next, Nat.add_comm]
  · simp only [HandleTable.insert, issued_concat, hentry, h.next, List.map_singleton,
      List.length_append, List.length_singleton]
  · simpa [hentry, hback] using ⟨h.givenUp.1, fun _ hm => List.mem_append_left _ (h.givenUp.2 hm)⟩
  · rw [issued_concat, List.mem_append, not_or] at hhandle
    rw [changed_concat, hchange, h.unchanged handle hhandle.1]
    rfl

/-- What is behind a handle is changed. -/
theorem Kept.update (h : Kept events t) {change : α → α} (hlive : handle ∈ issued events)
    (hentry : e.entry = []) (hback : e.givenUp = [])
    (hchange : ∀ other, e.change other = if handle = other then [change] else []) :
    Kept (events ++ [e]) (t.changeAt handle change) := by
  have hchanged (other : Nat) (rep : α) : changed (events ++ [e]) other rep =
      if other = handle then change (changed events other rep) else changed events other rep := by
    rw [changed_concat, hchange]
    by_cases h : other = handle
    · simp [h]
    · simp [h, Ne.symm h]
  refine ⟨?_, ?_, ?_, ?_, fun other hother rep => ?_⟩
  · simp [changeAt, hentry, hback, hchanged, h.entries]
  · simpa [hentry] using h.numbered
  · simp [hentry, h.next]
  · simpa [hentry, hback] using h.givenUp
  · rw [issued_concat, hentry, List.map_nil, List.append_nil] at hother
    have hne : other ≠ handle := fun heq => hother (heq ▸ hlive)
    rw [hchanged, if_neg hne, h.unchanged other hother]

/-- A handle is given up. -/
theorem Kept.drop (h : Kept events t) (hlive : handle ∈ issued events ∧ handle ∉ dropped events)
    (hentry : e.entry = []) (hback : e.givenUp = [handle])
    (hchange : ∀ other, e.change other = []) :
    Kept (events ++ [e]) (t.without handle) := by
  refine ⟨?_, ?_, ?_, ⟨?_, ?_⟩, ?_⟩
  · simp only [without, inserted_concat, hentry, List.append_nil, dropped_concat, hback,
      List.mem_append, List.mem_singleton, changed_concat, hchange, List.foldl_nil, h.entries,
      List.filter_map, List.filter_filter]
    congr 2
    funext entry
    simp [and_comm]
  · simpa [hentry] using h.numbered
  · simp [hentry, h.next]
  · rw [dropped_concat, hback]
    exact List.concat_eq_append ▸ h.givenUp.1.concat hlive.2
  · rw [dropped_concat, hback, issued_concat, hentry, List.map_nil, List.append_nil]
    exact List.append_subset.2 ⟨h.givenUp.2, by simpa using hlive.1⟩
  · simpa [hentry, hchange] using h.unchanged

/-! ### Runs -/

theorem run_get : (Request.get handle).run t = ((t.get handle).map .representation, t) := by
  rw [Request.run, Request.serve]
  cases t.get handle <;> rfl

theorem run_update {change : α → α} : (Request.update handle change).run t =
    match t.get handle with
    | .ok rep => (.ok (.representation (change rep)), t.changeAt handle change)
    | .error e => (.error e, t) := by
  rw [Request.run, Request.serve, update_eq]
  cases h : t.get handle with
  | error e => rfl
  | ok rep =>
    simp only [Except.map, bind, Except.bind, get_changeAt, h, if_pos]
    rfl

theorem run_drop : (Request.drop handle).run t =
    match t.get handle with
    | .ok rep => (.ok (.representation rep), t.without handle)
    | .error e => (.error e, t) := by
  rw [Request.run, Request.serve, drop_eq]
  cases t.get handle <;> rfl

/-- A request keeps the table in step with its history. -/
theorem Kept.step (h : Kept events t) (request : Request α) :
    Kept (events ++ [⟨request, (request.run t).1⟩]) (request.run t).2 := by
  cases request with
  | insert rep => exact h.insert rfl rfl fun _ => rfl
  | get handle =>
    rw [run_get]
    exact h.idle rfl rfl fun _ => rfl
  | update handle change =>
    rw [run_update]
    cases hget : t.get handle with
    | error e => exact h.idle rfl rfl fun _ => rfl
    | ok rep => exact h.update (mem_of_held (h.held_of_get hget)).1 rfl rfl fun _ => rfl
  | drop handle =>
    rw [run_drop]
    cases hget : t.get handle with
    | error e => exact h.idle rfl rfl fun _ => rfl
    | ok rep => exact h.drop (mem_of_held (h.held_of_get hget)) rfl rfl fun _ => rfl
  | contains handle => exact h.idle rfl rfl fun _ => rfl
  | size => exact h.idle rfl rfl fun _ => rfl

/-- So does a whole run. -/
theorem Kept.run (h : Kept events t) (requests : List (Request α)) :
    Kept (events ++ (serveAll requests t).1) (serveAll requests t).2 := by
  induction requests generalizing events t with
  | nil => simpa [serveAll] using h
  | cons request rest ih =>
    have hrest := ih (h.step request)
    rwa [List.append_assoc] at hrest

/-- A run answers every request, in order. -/
theorem map_request_serveAll (requests : List (Request α)) (t : HandleTable α) :
    (serveAll requests t).1.map Event.request = requests := by
  induction requests generalizing t with
  | nil => rfl
  | cons request rest ih => exact congrArg (request :: ·) (ih (request.run t).2)

/-- A table in step with its history answers what the history asks for. -/
theorem Kept.due (h : Kept events t) (request : Request α) :
    Event.Due events ⟨request, (request.run t).1⟩ := by
  cases request with
  | insert rep =>
    have hpos : t.next ≠ 0 := by rw [h.next]; exact Nat.succ_ne_zero _
    exact ⟨t.next, rfl, hpos, h.next_notMem⟩
  | get handle =>
    rw [run_get, h.get_eq]
    rfl
  | update handle change =>
    simp only [Event.Due, run_update, h.get_eq]
    cases expected events handle <;> rfl
  | drop handle =>
    simp only [Event.Due, run_drop, h.get_eq]
    cases expected events handle <;> rfl
  | contains handle =>
    simp only [Event.Due, ← h.lookup_eq]
    rfl
  | size => exact ⟨t.size, rfl, h.size_add⟩

/-- Each event of a run is due after the ones before it. -/
theorem Kept.due_of_serveAll (h : Kept events t) {requests : List (Request α)}
    (hsplit : (serveAll requests t).1 = before ++ e :: after) : e.Due (events ++ before) := by
  induction requests generalizing events t before with
  | nil => simp [serveAll] at hsplit
  | cons request rest ih =>
    cases before with
    | nil =>
      obtain ⟨rfl, -⟩ := List.cons.inj hsplit
      rw [List.append_nil]
      exact h.due request
    | cons first before =>
      obtain ⟨rfl, hrest⟩ := List.cons.inj hsplit
      have hdue := ih (h.step request) hrest
      rwa [List.append_assoc] at hdue

/-- A request leaves what is behind the handles that it is not about. -/
theorem get_run {request : Request α}
    (hother : Event.subject ⟨request, (request.run t).1⟩ ≠ some handle) :
    (request.run t).2.get handle = t.get handle := by
  cases request with
  | insert rep => exact get_insert fun heq => hother (congrArg some heq.symm)
  | get named => rw [run_get]
  | update named change =>
    have hne : handle ≠ named := fun heq => hother (congrArg some heq.symm)
    rw [run_update]
    cases t.get named with
    | error e => rfl
    | ok rep =>
      simp only [get_changeAt, if_neg hne]
      cases t.get handle <;> rfl
  | drop named =>
    have hne : handle ≠ named := fun heq => hother (congrArg some heq.symm)
    rw [run_drop]
    cases t.get named with
    | error e => rfl
    | ok rep => exact get_without hne
  | contains named => rfl
  | size => rfl

/-- A request that is refused changes nothing. -/
theorem run_error {request : Request α} {e : AbiError} (h : (request.run t).1 = .error e) :
    (request.run t).2 = t := by
  rw [Request.run] at h ⊢
  split at h
  · cases h
  · rfl

/-- In every run, each request is answered: a new handle is not 0 and was never given out before;
what was given out and not given up can be read, changed and given up, and is what was inserted,
with all changes made to it; every other handle is refused; and the number of live resources is the
number of those that were inserted without those that were given up. As long as fewer handles were
given out than there are numbers of 32 bits other than 0, they and the next one are such numbers.
What is refused changes nothing, and what is asked about a handle changes nothing behind others. -/
theorem answers_due (requests : List (Request α)) :
    let (events, t) := serveAll requests {}
    events.map Event.request = requests ∧
      (∀ before e after, events = before ++ e :: after → e.Due before) ∧
      ((issued events).length < UInt32.size - 1 →
        t.next < UInt32.size ∧ ∀ handle ∈ issued events, handle < t.next) ∧
      ∀ request, (∀ e, (request.run t).1 = .error e → (request.run t).2 = t) ∧
        ∀ handle, Event.subject ⟨request, (request.run t).1⟩ ≠ some handle →
          (request.run t).2.get handle = t.get handle := by
  have hkept : Kept (serveAll requests {}).1 (serveAll requests {}).2 := kept_nil.run requests
  refine ⟨map_request_serveAll requests {},
    fun before e after hsplit => kept_nil.due_of_serveAll hsplit, fun hfew => ⟨?_, ?_⟩,
    fun request => ⟨fun e => run_error, fun handle => get_run⟩⟩
  · rw [hkept.next]
    omega
  · intro handle hhandle
    rw [hkept.numbered, List.mem_range'_1] at hhandle
    rw [hkept.next]
    omega

/-- A handle that was given up stays refused when there are newer resources. -/
example : (serveAll [.insert "a", .drop 1, .insert "b", .get 1, .get 2] {}).1.map Event.reply =
    [.ok (.handle 1), .ok (.representation "a"), .ok (.handle 2), .error (.handleNotFound 1),
      .ok (.representation "b")] := rfl

end HandleTable

end ComponentAbi
