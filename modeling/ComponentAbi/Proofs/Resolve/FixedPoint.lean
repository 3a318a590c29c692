import ComponentAbi.Proofs.Except
import ComponentAbi.Proofs.Resolve.Chain

/-!
# Where references lead

Resolution follows single hops to their fixed point (`PackageStore.resolve_fixed_point`). It always
ends. It answers the node with a shape of its own that the hops come to, and every node on the way
there has the same answer. Where the hops come to no such node, they come to a node that they have
passed before, to one that does not exist, or to a hop that fails, and resolution says which.

* `PackageStore.resolve_eq_iff` : an answer other than a cycle is given where the chain stops;
* `PackageStore.Revisits.unique` : the first node that is passed again is determined by the chain.
-/

namespace ComponentAbi

namespace PackageStore

variable {s : PackageStore} {arena : TypeArena} {id c c' : TypeId} {target : Reference}
  {answer : Except ResolveError TypeId} {e : ResolveError}

/-! ### Chains that stop -/

theorem ends_iff : s.Ends arena id answer ↔
    ∃ c, Relation.ReflTransGen (s.Leads arena) id c ∧ s.Stops arena c answer := by
  constructor
  · intro h
    induction h with
    | stop h => exact ⟨_, .refl, h⟩
    | hop h _ ih =>
      obtain ⟨c, hreach, hstop⟩ := ih
      exact ⟨c, .head h hreach, hstop⟩
  · rintro ⟨c, hreach, hstop⟩
    induction hreach using Relation.ReflTransGen.head_induction_on with
    | refl => exact .stop hstop
    | head h _ ih => exact .hop h ih

/-- A hop fails because a name is not found. -/
theorem exists_unresolved_of_hop (h : s.hop target = .error e) :
    ∃ name package attempts, e = .unresolvedType name package attempts ∨
      e = .unresolvedContainer name package attempts := by
  cases target with
  | named package name =>
    obtain ⟨attempts, -, rfl⟩ := Except.mapError_eq_error.1 h
    exact ⟨_, _, _, .inl rfl⟩
  | used package container name =>
    rcases Except.bind_eq_error.1 h with h | ⟨origin, -, h⟩
    · obtain ⟨attempts, -, rfl⟩ := Except.mapError_eq_error.1 h
      exact ⟨_, _, _, .inr rfl⟩
    · split at h
      · cases h
      · cases h
        exact ⟨_, _, _, .inl rfl⟩

theorem not_stops_aliasCycle (text : String) : ¬ s.Stops arena c (.error (.aliasCycle text)) := by
  intro h
  cases h with
  | broken h he => obtain ⟨_, _, _, h | h⟩ := exists_unresolved_of_hop he <;> cases h

theorem stops_ok_iff {r : TypeId} : s.Stops arena c (.ok r) ↔
    c = r ∧ ∃ node, arena.get? r = some node ∧ node.isReference = false := by
  constructor
  · intro h
    cases h with
    | shape h hshape => exact ⟨rfl, _, h, hshape⟩
  · rintro ⟨rfl, node, h, hshape⟩
    exact .shape h hshape

theorem stops_unknownTypeId_iff :
    s.Stops arena c (.error (.unknownTypeId c')) ↔ c = c' ∧ arena.get? c' = none := by
  constructor
  · intro h
    cases h with
    | missing h => exact ⟨rfl, h⟩
    | broken h he => obtain ⟨_, _, _, h | h⟩ := exists_unresolved_of_hop he <;> cases h
  · rintro ⟨rfl, h⟩
    exact .missing h

/-- Resolution answers anything but a cycle where the chain of references stops. -/
theorem resolve_eq_iff (hcycle : ∀ text, answer ≠ .error (.aliasCycle text)) :
    s.resolve arena id = answer ↔
      ∃ c, Relation.ReflTransGen (s.Leads arena) id c ∧ s.Stops arena c answer := by
  rw [← ends_iff]
  constructor
  · rintro rfl
    rcases resolve_spec s arena id with hends | ⟨c, target, -, -, h⟩
    · exact hends
    · exact absurd h (hcycle _)
  · exact Ends.resolve_eq

/-! ### Chains that come to a node again -/

/-- Chains from one node go the same way. -/
theorem prefix_of_isChain {ids ids' : List TypeId} (h : (id :: ids).IsChain (s.Leads arena))
    (h' : (id :: ids').IsChain (s.Leads arena)) (hle : ids.length ≤ ids'.length) :
    ids <+: ids' := by
  induction ids generalizing id ids' with
  | nil => exact List.nil_prefix
  | cons next ids ih =>
    cases ids' with
    | nil => cases hle
    | cons next' ids' =>
      obtain ⟨hnext, hrest⟩ := List.isChain_cons_cons.1 h
      obtain ⟨hnext', hrest'⟩ := List.isChain_cons_cons.1 h'
      obtain rfl := hnext.unique hnext'
      exact (List.prefix_cons_inj _).2 (ih hrest hrest' (Nat.le_of_succ_le_succ hle))

/-- The first node that is passed again is no other on a longer chain. -/
theorem Revisits.eq_of_length_le {passed passed' : List TypeId} (hc : c ∈ id :: passed)
    (hchain : (id :: passed ++ [c]).IsChain (s.Leads arena)) (hnodup' : (id :: passed').Nodup)
    (hchain' : (id :: passed' ++ [c']).IsChain (s.Leads arena))
    (hle : passed.length ≤ passed'.length) : c = c' := by
  have hpre : passed ++ [c] <+: passed' ++ [c'] :=
    prefix_of_isChain hchain hchain' (by simpa using hle)
  rcases Nat.lt_or_eq_of_le hle with hlt | heq
  · -- The chain that goes on has `c` among the nodes that it passes once.
    have hin : passed ++ [c] <+: passed' :=
      List.prefix_of_prefix_length_le hpre (List.prefix_append _ _) (by simp; omega)
    have hnodup : (id :: (passed ++ [c])).Nodup :=
      hnodup'.sublist ((List.prefix_cons_inj id).2 hin).sublist
    rw [← List.cons_append] at hnodup
    exact absurd rfl ((List.nodup_append.1 hnodup).2.2 c hc c (List.mem_singleton_self c))
  · have hsame := hpre.eq_of_length (by simp [heq])
    exact List.singleton_inj.1 (List.append_inj hsame heq).2

theorem Revisits.unique (h : s.Revisits arena id c) (h' : s.Revisits arena id c') : c = c' := by
  obtain ⟨passed, hnodup, hc, hchain⟩ := h
  obtain ⟨passed', hnodup', hc', hchain'⟩ := h'
  rcases Nat.le_total passed.length passed'.length with hle | hle
  · exact eq_of_length_le hc hchain hnodup' hchain' hle
  · exact (eq_of_length_le hc' hchain' hnodup hchain hle).symm

/-- Resolution reports a cycle if the chain comes to a node again, by the reference of the first
such node. -/
theorem resolve_eq_aliasCycle_iff {text : String} :
    s.resolve arena id = .error (.aliasCycle text) ↔ ∃ c target, s.Revisits arena id c ∧
      arena.get? c = some (.reference target) ∧ target.toText = text := by
  rcases resolve_spec s arena id with hends | ⟨c, target, hrevisits, hnode, h⟩
  · constructor
    · intro h
      rw [h, ends_iff] at hends
      obtain ⟨c, -, hstop⟩ := hends
      exact absurd hstop (not_stops_aliasCycle text)
    · rintro ⟨c, target, hrevisits, -⟩
      exact absurd hrevisits.circles hends.not_circles
  · rw [h]
    constructor
    · intro htext
      cases htext
      exact ⟨c, target, hrevisits, hnode, rfl⟩
    · rintro ⟨c', target', hrevisits', hnode', rfl⟩
      rw [hrevisits'.unique hrevisits, hnode] at hnode'
      cases hnode'
      rfl

/-! ### Resolution -/

/-- Resolution ends after at most one round more than the arena has nodes. It answers the node with
a shape of its own that the hops come to, and then every node on the way there resolves to it. It
reports a cycle exactly if the hops come to a node again, and names the reference of the first such
node. It reports the missing node that the hops come to, and the failure of the hop that fails;
there is nothing else that it answers. -/
theorem resolve_fixed_point (s : PackageStore) (arena : TypeArena) (id : TypeId) :
    (∃ rounds ≤ arena.size + 1, s.Rounds arena rounds [] id (s.resolve arena id)) ∧
    (∀ r, s.resolve arena id = .ok r ↔ Relation.ReflTransGen (s.Leads arena) id r ∧
      ∃ node, arena.get? r = some node ∧ node.isReference = false) ∧
    (∀ r c, s.resolve arena id = .ok r → Relation.ReflTransGen (s.Leads arena) id c →
      s.resolve arena c = .ok r) ∧
    (∀ text, s.resolve arena id = .error (.aliasCycle text) ↔ ∃ c target,
      s.Revisits arena id c ∧ arena.get? c = some (.reference target) ∧ target.toText = text) ∧
    (∀ c, s.resolve arena id = .error (.unknownTypeId c) ↔
      Relation.ReflTransGen (s.Leads arena) id c ∧ arena.get? c = none) ∧
    (∀ c target e, Relation.ReflTransGen (s.Leads arena) id c →
      arena.get? c = some (.reference target) → s.hop target = .error e →
      s.resolve arena id = .error e) ∧
    ∀ e, s.resolve arena id = .error e →
      (∃ text, e = .aliasCycle text) ∨ (∃ c, e = .unknownTypeId c) ∨
        ∃ c target, Relation.ReflTransGen (s.Leads arena) id c ∧
          arena.get? c = some (.reference target) ∧ s.hop target = .error e := by
  refine ⟨rounds_resolve s arena id, fun r => ?_, fun r c h hreach => ?_,
    fun text => resolve_eq_aliasCycle_iff, fun c => ?_, fun c target e hreach hnode he => ?_,
    fun e h => ?_⟩
  · refine (resolve_eq_iff (by simp)).trans ?_
    simp only [stops_ok_iff]
    exact ⟨fun ⟨_, hreach, hr, hshape⟩ => ⟨hr ▸ hreach, hshape⟩,
      fun ⟨hreach, hshape⟩ => ⟨r, hreach, rfl, hshape⟩⟩
  · have hends : s.Ends arena id (.ok r) := ends_iff.2 ((resolve_eq_iff (by simp)).1 h)
    exact (hends.of_reflTransGen hreach).resolve_eq
  · refine (resolve_eq_iff (by simp)).trans ?_
    simp only [stops_unknownTypeId_iff]
    exact ⟨fun ⟨_, hreach, hc, hmissing⟩ => ⟨hc ▸ hreach, hmissing⟩,
      fun ⟨hreach, hmissing⟩ => ⟨c, hreach, rfl, hmissing⟩⟩
  · exact (ends_iff.2 ⟨c, hreach, .broken hnode he⟩).resolve_eq
  · by_cases hcycle : ∃ text, e = .aliasCycle text
    · exact .inl hcycle
    · obtain ⟨c, hreach, hstop⟩ := (resolve_eq_iff fun text he =>
        hcycle ⟨text, Except.error.inj he⟩).1 h
      cases hstop with
      | missing hmissing => exact .inr (.inl ⟨c, rfl⟩)
      | broken hnode he => exact .inr (.inr ⟨c, _, hreach, hnode, he⟩)

end PackageStore

end ComponentAbi
