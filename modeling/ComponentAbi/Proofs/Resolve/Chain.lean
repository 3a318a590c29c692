import ComponentAbi.Resolver
import ComponentAbi.Proofs.Arena
import Mathlib.Logic.Relation

/-!
# Chains of references

Following the references from a node either ends, at a node with a shape of its own or at a failure
(`PackageStore.Ends`), or comes to a circle (`PackageStore.Circles`). Resolution goes on in rounds
that no number bounds (`PackageStore.Rounds`), but comes to no node twice. So it answers where the
chain ends, and reports a circle otherwise (`PackageStore.resolve_spec`), and a reference resolves
like the node one hop further on (`PackageStore.alike_resolve_of_hop`).
-/

namespace ComponentAbi

namespace PackageStore

variable {s : PackageStore} {arena : TypeArena} {id next : TypeId} {target : Reference}
  {answer answer' : Except ResolveError TypeId} {visited : List TypeId} {n : Nat}

/-- The node of `id` is a reference that leads to `next` in one hop. -/
def Leads (s : PackageStore) (arena : TypeArena) (id next : TypeId) : Prop :=
  ∃ target, arena.get? id = some (.reference target) ∧ s.hop target = .ok next

/-- The node of `id` leads nowhere: it is a shape of its own, or there is no next node. -/
inductive Stops (s : PackageStore) (arena : TypeArena) (id : TypeId) :
    Except ResolveError TypeId → Prop where
  | missing (h : arena.get? id = none) : Stops s arena id (.error (.unknownTypeId id))
  | shape {node : TypeNode} (h : arena.get? id = some node) (hshape : node.isReference = false) :
    Stops s arena id (.ok id)
  | broken {target : Reference} {e : ResolveError} (h : arena.get? id = some (.reference target))
    (he : s.hop target = .error e) : Stops s arena id (.error e)

/-- Following references from a node ends with an answer. -/
inductive Ends (s : PackageStore) (arena : TypeArena) :
    TypeId → Except ResolveError TypeId → Prop where
  | stop {id : TypeId} {answer : Except ResolveError TypeId} (h : s.Stops arena id answer) :
    Ends s arena id answer
  | hop {id next : TypeId} {answer : Except ResolveError TypeId} (h : s.Leads arena id next)
    (rest : Ends s arena next answer) : Ends s arena id answer

/-- Following references from a node comes to a node that leads back to itself. -/
def Circles (s : PackageStore) (arena : TypeArena) (id : TypeId) : Prop :=
  ∃ c, Relation.ReflTransGen (s.Leads arena) id c ∧ Relation.TransGen (s.Leads arena) c c

/-- Following references from a node passes it and some others, each of them once, and then comes to
`c`, which is one of them. -/
def Revisits (s : PackageStore) (arena : TypeArena) (id c : TypeId) : Prop :=
  ∃ passed : List TypeId, (id :: passed).Nodup ∧ c ∈ id :: passed ∧
    (id :: passed ++ [c]).IsChain (s.Leads arena)

/-- The same answer, or a circle of references both times; the two may name different references of
the circle. -/
def Alike (answer answer' : Except ResolveError TypeId) : Prop :=
  answer = answer' ∨
    ∃ r r', answer = .error (.aliasCycle r) ∧ answer' = .error (.aliasCycle r')

/-! ### Chains end in one way -/

theorem Leads.unique {next' : TypeId} (h : s.Leads arena id next) (h' : s.Leads arena id next') :
    next = next' := by
  obtain ⟨target, hnode, hhop⟩ := h
  obtain ⟨target', hnode', hhop'⟩ := h'
  rw [hnode] at hnode'
  cases hnode'
  rw [hhop] at hhop'
  exact Except.ok.inj hhop'

theorem Stops.not_leads (h : s.Stops arena id answer) : ¬ s.Leads arena id next := by
  rintro ⟨target, hnode, hhop⟩
  cases h with
  | missing h =>
    rw [h] at hnode
    cases hnode
  | shape h hshape =>
    rw [h] at hnode
    cases hnode
    cases hshape
  | broken h he =>
    rw [h] at hnode
    cases hnode
    rw [he] at hhop
    cases hhop

theorem Stops.unique (h : s.Stops arena id answer) (h' : s.Stops arena id answer') :
    answer = answer' := by
  cases h with
  | missing h => cases h' <;> grind
  | shape h hshape => cases h' <;> grind [TypeNode.isReference]
  | broken h he => cases h' <;> grind [TypeNode.isReference]

theorem Ends.of_leads (h : s.Ends arena id answer) (hnext : s.Leads arena id next) :
    s.Ends arena next answer := by
  cases h with
  | stop h => exact absurd hnext h.not_leads
  | hop h rest => rwa [hnext.unique h]

theorem Ends.unique (h : s.Ends arena id answer) (h' : s.Ends arena id answer') :
    answer = answer' := by
  induction h with
  | stop h =>
    cases h' with
    | stop h' => exact h.unique h'
    | hop h' => exact absurd h' h.not_leads
  | hop h rest ih => exact ih (h'.of_leads h)

theorem Ends.of_reflTransGen {c : TypeId} (h : s.Ends arena id answer)
    (hc : Relation.ReflTransGen (s.Leads arena) id c) : s.Ends arena c answer := by
  induction hc with
  | refl => exact h
  | tail _ hstep ih => exact ih.of_leads hstep

/-- A chain that ends does not come back to its first node. -/
theorem Ends.not_transGen_self (h : s.Ends arena id answer) :
    ¬ Relation.TransGen (s.Leads arena) id id := by
  induction h with
  | stop h =>
    intro hc
    obtain ⟨_, hfirst, -⟩ := Relation.TransGen.head'_iff.1 hc
    exact h.not_leads hfirst
  | hop h rest ih =>
    intro hc
    obtain ⟨second, hsecond, hback⟩ := Relation.TransGen.head'_iff.1 hc
    rw [← h.unique hsecond] at hback
    exact ih (Relation.TransGen.tail' hback h)

theorem Ends.not_circles (h : s.Ends arena id answer) : ¬ s.Circles arena id := by
  rintro ⟨c, hreach, hcircle⟩
  exact (h.of_reflTransGen hreach).not_transGen_self hcircle

theorem Circles.head (h : s.Circles arena next) (hnext : s.Leads arena id next) :
    s.Circles arena id := by
  obtain ⟨c, hreach, hcircle⟩ := h
  exact ⟨c, .head hnext hreach, hcircle⟩

theorem transGen_of_isChain {first last : TypeId} {ids : List TypeId}
    (h : (first :: ids ++ [last]).IsChain (s.Leads arena)) :
    Relation.TransGen (s.Leads arena) first last := by
  induction ids generalizing first with
  | nil => exact .single (List.isChain_cons_cons.1 h).1
  | cons next ids ih =>
    obtain ⟨hfirst, hrest⟩ := List.isChain_cons_cons.1 h
    exact .head hfirst (ih hrest)

theorem Revisits.circles {c : TypeId} (h : s.Revisits arena id c) : s.Circles arena id := by
  obtain ⟨passed, -, hc, hchain⟩ := h
  rcases List.mem_cons.1 hc with rfl | hc
  · exact ⟨c, .refl, transGen_of_isChain hchain⟩
  · obtain ⟨before, after, rfl⟩ := List.append_of_mem hc
    rw [← List.cons_append, List.append_assoc] at hchain
    obtain ⟨hstem, hcircle⟩ := List.isChain_split.1 hchain
    exact ⟨c, (transGen_of_isChain hstem).to_reflTransGen, transGen_of_isChain hcircle⟩

/-! ### Resolution follows the chain -/

/-- The rounds of resolution, without a bound on their number: from `id`, with `visited` the
references that were followed before, the last one first, it takes the given number of rounds to
come to an answer. -/
inductive Rounds (s : PackageStore) (arena : TypeArena) :
    Nat → List TypeId → TypeId → Except ResolveError TypeId → Prop where
  | missing {visited : List TypeId} {id : TypeId} (h : arena.get? id = none) :
    Rounds s arena 1 visited id (.error (.unknownTypeId id))
  | shape {visited : List TypeId} {id : TypeId} {node : TypeNode} (h : arena.get? id = some node)
    (hshape : node.isReference = false) : Rounds s arena 1 visited id (.ok id)
  | again {visited : List TypeId} {id : TypeId} {target : Reference}
    (h : arena.get? id = some (.reference target)) (hv : id ∈ visited) :
    Rounds s arena 1 visited id (.error (.aliasCycle target.toText))
  | broken {visited : List TypeId} {id : TypeId} {target : Reference} {e : ResolveError}
    (h : arena.get? id = some (.reference target)) (hv : id ∉ visited)
    (he : s.hop target = .error e) : Rounds s arena 1 visited id (.error e)
  | hop {n : Nat} {visited : List TypeId} {id next : TypeId} {target : Reference}
    {answer : Except ResolveError TypeId} (h : arena.get? id = some (.reference target))
    (hv : id ∉ visited) (hnext : s.hop target = .ok next)
    (rest : Rounds s arena n (id :: visited) next answer) :
    Rounds s arena (n + 1) visited id answer

/-- Following a chain, with as many hops left as there are nodes that were not visited, takes no
more rounds than that. -/
theorem rounds_follow (hn : n + visited.length = arena.size + 1) (hnodup : visited.Nodup)
    (hin : ∀ v ∈ visited, v.index < arena.size) :
    ∃ k ≤ n, s.Rounds arena k visited id (s.follow arena n visited id) := by
  induction n generalizing visited id with
  | zero =>
    have := TypeArena.length_le_size hnodup hin
    omega
  | succ n ih =>
    rw [follow]
    split
    · rename_i hnode
      exact ⟨1, by omega, .missing hnode⟩
    · rename_i target hnode
      split
      · rename_i hvisited
        exact ⟨1, by omega, .again hnode hvisited⟩
      · rename_i hnew
        cases hhop : s.hop target with
        | error e => exact ⟨1, by omega, .broken hnode hnew hhop⟩
        | ok next =>
          have hcount : n + (id :: visited).length = arena.size + 1 := by
            rw [List.length_cons]
            omega
          obtain ⟨k, hk, hrounds⟩ := @ih next _ hcount
            (List.nodup_cons.2 ⟨hnew, hnodup⟩)
            (List.forall_mem_cons.2 ⟨TypeArena.index_lt_of_get? hnode, hin⟩)
          exact ⟨k + 1, by omega, .hop hnode hnew hhop hrounds⟩
    · rename_i node hreference hnode
      refine ⟨1, by omega, .shape hnode ?_⟩
      cases node <;> first | rfl | exact absurd rfl (hreference _)

/-- Resolution ends, after at most one round more than the arena has nodes. -/
theorem rounds_resolve (s : PackageStore) (arena : TypeArena) (id : TypeId) :
    ∃ k ≤ arena.size + 1, s.Rounds arena k [] id (s.resolve arena id) :=
  rounds_follow (by simp) List.nodup_nil fun _ h => absurd h List.not_mem_nil

/-- Rounds follow the chain to where it ends, or to the first node that they come to again. -/
theorem Rounds.ends_or_revisits {start : TypeId} (h : s.Rounds arena n visited id answer)
    (hchain : (id :: visited).IsChain fun a b => s.Leads arena b a) (hnodup : visited.Nodup)
    (hstart : (id :: visited).getLast? = some start) :
    s.Ends arena id answer ∨ ∃ c target, s.Revisits arena start c ∧
      arena.get? c = some (.reference target) ∧ answer = .error (.aliasCycle target.toText) := by
  induction h with
  | missing h => exact .inl (.stop (.missing h))
  | shape h hshape => exact .inl (.stop (.shape h hshape))
  | @again visited id target h hv =>
    have hlast : visited.getLast? = some start := by
      cases visited with
      | nil => cases hv
      | cons v visited => rwa [List.getLast?_cons_cons] at hstart
    obtain ⟨passed, rfl⟩ := List.getLast?_eq_some_iff.1 hlast
    have hrev : (passed ++ [start]).reverse = start :: passed.reverse := by simp
    refine .inr ⟨id, target, ⟨passed.reverse, ?_, ?_, ?_⟩, h, rfl⟩
    · exact hrev ▸ List.nodup_reverse.2 hnodup
    · exact hrev ▸ List.mem_reverse.2 hv
    · rw [← hrev, ← List.reverse_cons, List.isChain_reverse]
      exact hchain
  | broken h hv he => exact .inl (.stop (.broken h he))
  | hop h hv hnext rest ih =>
    have hleads : s.Leads arena _ _ := ⟨_, h, hnext⟩
    rcases ih (List.isChain_cons_cons.2 ⟨hleads, hchain⟩) (List.nodup_cons.2 ⟨hv, hnodup⟩)
        (by rwa [List.getLast?_cons_cons]) with hends | hrevisits
    · exact .inl (.hop hleads hends)
    · exact .inr hrevisits

/-- Resolution answers where the chain of references ends, or else reports the reference of the
first node that is come to again. -/
theorem resolve_spec (s : PackageStore) (arena : TypeArena) (id : TypeId) :
    s.Ends arena id (s.resolve arena id) ∨ ∃ c target, s.Revisits arena id c ∧
      arena.get? c = some (.reference target) ∧
        s.resolve arena id = .error (.aliasCycle target.toText) := by
  obtain ⟨k, -, hrounds⟩ := rounds_resolve s arena id
  exact hrounds.ends_or_revisits (.singleton _) List.nodup_nil rfl

theorem Ends.resolve_eq (h : s.Ends arena id answer) : s.resolve arena id = answer := by
  rcases resolve_spec s arena id with hends | ⟨c, target, hrevisits, -⟩
  · exact hends.unique h
  · exact absurd hrevisits.circles h.not_circles

theorem Circles.exists_resolve_eq (h : s.Circles arena id) : ∃ c target, s.Revisits arena id c ∧
    arena.get? c = some (.reference target) ∧
      s.resolve arena id = .error (.aliasCycle target.toText) :=
  (resolve_spec s arena id).resolve_left fun hends => hends.not_circles h

/-- A reference resolves like the node that it leads to. -/
theorem alike_resolve_of_leads (h : s.Leads arena id next) :
    Alike (s.resolve arena id) (s.resolve arena next) := by
  rcases resolve_spec s arena next with hends | ⟨c', target', hrevisits, -, hnext⟩
  · exact .inl (Ends.hop h hends).resolve_eq
  · obtain ⟨c, target, -, -, hid⟩ := (hrevisits.circles.head h).exists_resolve_eq
    exact .inr ⟨_, _, hid, hnext⟩

/-- What resolution answers has a shape of its own. -/
theorem exists_shape_of_resolve {resolved : TypeId} (h : s.resolve arena id = .ok resolved) :
    ∃ node, arena.get? resolved = some node ∧ node.isReference = false := by
  rcases resolve_spec s arena id with hends | ⟨c, target, -, -, hr⟩
  · generalize s.resolve arena id = answer at h hends
    subst h
    generalize hanswer : Except.ok resolved = answer at hends
    induction hends with
    | stop hstop =>
      cases hstop with
      | missing | broken => cases hanswer
      | shape hnode hshape =>
        cases hanswer
        exact ⟨_, hnode, hshape⟩
    | hop _ _ ih => exact ih hanswer
  · rw [hr] at h
    cases h

end PackageStore

end ComponentAbi
