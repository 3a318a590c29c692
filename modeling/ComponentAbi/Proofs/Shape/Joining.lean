import ComponentAbi.Proofs.Shape.Slots
import Mathlib.Data.List.Chain
import Mathlib.Data.List.Fold
import Mathlib.Data.List.ReduceOption

/-!
# Slots that cases share

The slots of some cases are the position-wise join of the words of each of them. Joining is
commutative, associative and idempotent, so the slots depend only on which types are among the
payloads (`foldr_joinWords_congr`).

A kind that was joined into a slot is cast into it without loss (`CoreType.embeds_of_join`). A word
of a payload that is itself made of sums has already been moved into their slots, one inside the
other (`Shape.Holds`). It comes out of all of them as it was, and the way through the slots in
between gives the same bits as the cast into the last one (`Word.exists_enter`).

`Abi.flattenCases_lossless` says so for the cases of a sum.
-/

namespace ComponentAbi

/-! ### Joins of many -/

instance : Std.Commutative joinWords := ⟨joinWords_comm⟩

instance : Std.Associative joinWords := ⟨joinWords_assoc⟩

theorem length_joinWords (as bs : List CoreType) :
    (joinWords as bs).length = max as.length bs.length := by
  induction as generalizing bs with
  | nil => simp [joinWords]
  | cons a as ih =>
    cases bs with
    | nil => simp
    | cons b bs => rw [joinWords, List.length_cons, ih, List.length_cons, List.length_cons,
        Nat.succ_max_succ]

section Rows

variable {rows rows' : List (List CoreType)} {row slots : List CoreType}

theorem length_foldr_joinWords (rows : List (List CoreType)) :
    (rows.foldr joinWords []).length = (rows.map List.length).foldr max 0 := by
  induction rows with
  | nil => rfl
  | cons row rows ih => rw [List.foldr_cons, length_joinWords, ih, List.map_cons, List.foldr_cons]

/-- Each row has a place in the join of all. -/
theorem joinWords_foldr_of_mem (h : row ∈ rows) :
    joinWords row (rows.foldr joinWords []) = rows.foldr joinWords [] := by
  induction rows with
  | nil => cases h
  | cons first rows ih =>
    rw [List.foldr_cons]
    rcases List.mem_cons.1 h with rfl | h
    · rw [← joinWords_assoc, joinWords_self]
    · rw [← joinWords_assoc, joinWords_comm row, joinWords_assoc, ih h]

/-- What has a place for each row has one for their join. -/
theorem joinWords_foldr_of_forall (h : ∀ row ∈ rows, joinWords row slots = slots) :
    joinWords (rows.foldr joinWords []) slots = slots := by
  induction rows with
  | nil => rfl
  | cons first rows ih =>
    obtain ⟨hfirst, hrows⟩ := List.forall_mem_cons.1 h
    rw [List.foldr_cons, joinWords_assoc, ih hrows, hfirst]

/-- Neither the order of the rows nor their repetition matters. -/
theorem foldr_joinWords_congr (h : ∀ row, row ∈ rows ↔ row ∈ rows') :
    rows.foldr joinWords [] = rows'.foldr joinWords [] := by
  have hle := joinWords_foldr_of_forall fun row hrow => joinWords_foldr_of_mem ((h row).1 hrow)
  have hge := joinWords_foldr_of_forall fun row hrow => joinWords_foldr_of_mem ((h row).2 hrow)
  rw [← hle, joinWords_comm, hge]

end Rows

/-- What has a place for all words has one at each position. -/
theorem exists_slot {as slots : List CoreType} {a : CoreType} {i : Nat}
    (h : joinWords as slots = slots) (ha : as[i]? = some a) :
    ∃ slot, slots[i]? = some slot ∧ a.join slot = slot := by
  induction as generalizing slots i with
  | nil => cases ha
  | cons first as ih =>
    cases slots with
    | nil => cases h
    | cons slot slots =>
      obtain ⟨hslot, hrest⟩ := List.cons.inj h
      cases i with
      | zero =>
        cases ha
        exact ⟨slot, rfl, hslot⟩
      | succ i => exact @ih slots i hrest ha

/-! ### Casts without loss -/

namespace CoreType

variable {a b c : CoreType}

/-- Slots inside slots: what is joined into a slot is joined into every slot around it. -/
theorem join_trans (hab : a.join b = b) (hbc : b.join c = c) : a.join c = c := by
  rw [← hbc, ← join_assoc, hab]

/-- Every word of a kind can be cast into a slot, and the inverse cast gives it back. -/
def Embeds (kind slot : CoreType) : Prop :=
  ∃ c, Bitcast.between kind slot = some c ∧
    ∀ w : Word, w.kind = kind →
      ∃ x, w.cast c = .ok x ∧ x.kind = slot ∧ x.cast c.inverse = .ok w

end CoreType

namespace Word

variable {w x : Word} {slot outer : CoreType} {slots : List CoreType}

/-- A word of a kind that was joined into a slot comes back out of it. -/
theorem exists_coerce (h : w.kind.join slot = slot) :
    ∃ x, w.coerce slot = .ok x ∧ x.kind = slot ∧ x.uncoerce w.kind = .ok w := by
  have hthere := cast_between_join w slot
  rw [h] at hthere
  obtain ⟨x, hx, hback⟩ := Except.bind_eq_ok.1 hthere
  exact ⟨x, hx, kind_coerce hx, hback⟩

/-- The slot in between leaves no trace. -/
theorem coerce_coerce (hw : w.kind.join slot = slot) (hx : w.coerce slot = .ok x)
    (hslot : slot.join outer = outer) : x.coerce outer = w.coerce outer := by
  cases w <;> cases slot <;> cases hw <;> cases outer <;> cases hslot <;>
    simp [coerce, cast, kind, Bitcast.between, Bitcast.ends, ofBits, bits] at hx ⊢ <;>
    subst hx <;> simp

theorem uncoerce_self (w : Word) : w.uncoerce w.kind = .ok w := by
  cases w <;> rfl

theorem coerce_self (w : Word) : w.coerce w.kind = .ok w := by
  cases w <;> rfl

/-- Moves a word into slots one inside the other. The outermost is the first of them. -/
def enter (slots : List CoreType) (w : Word) : Except AbiError Word :=
  slots.foldrM coerce w

/-- Reads a word back out of slots one inside the other, down to a word of the last kind. -/
def leave (slots : List CoreType) (w : Word) : Except AbiError Word :=
  slots.foldlM (fun w kind => w.uncoerce kind) w

/-- A word goes through slots that it was joined into as it goes into the outermost of them alone,
and comes back out of them. -/
theorem exists_enter (hslots : slots.IsChain fun outer inner => inner.join outer = outer)
    (hw : slots.getLast? = some w.kind) (hslot : slots.head? = some slot) :
    w.kind.join slot = slot ∧ ∃ x, w.enter slots = .ok x ∧ x.kind = slot ∧
      w.coerce slot = .ok x ∧ x.leave slots = .ok w := by
  induction slots generalizing slot with
  | nil => cases hw
  | cons outer slots ih =>
    cases hslot
    cases slots with
    | nil =>
      obtain rfl : outer = w.kind := Option.some.inj hw
      refine ⟨CoreType.join_self _, w, ?_, rfl, coerce_self w, ?_⟩
      · rw [enter, List.foldrM_cons, List.foldrM_nil, pure_bind, coerce_self]
      · rw [leave, List.foldlM_cons, uncoerce_self]
        rfl
    | cons inner slots =>
      obtain ⟨houter, hslots⟩ := List.isChain_cons_cons.1 hslots
      obtain ⟨hinner, x, hx, hkind, hdirect, hback⟩ := ih hslots hw rfl
      subst hkind
      obtain ⟨y, hy, hkind, hyx⟩ := exists_coerce houter
      subst hkind
      refine ⟨CoreType.join_trans hinner houter, y, ?_, rfl, ?_, ?_⟩
      · rw [enter] at hx ⊢
        rw [List.foldrM_cons, hx]
        exact hy
      · rw [← coerce_coerce hinner hdirect houter, hy]
      · -- Both ways of reading the inner slot start with the cast that changes nothing.
        rw [leave, List.foldlM_cons, uncoerce_self] at hback
        rw [leave, List.foldlM_cons, uncoerce_self]
        change (x.kind :: slots).foldlM (fun w kind => uncoerce kind w) y = _
        rw [List.foldlM_cons, hyx]
        exact hback

end Word

theorem CoreType.embeds_of_join {kind slot : CoreType} (h : kind.join slot = slot) :
    kind.Embeds slot := by
  obtain ⟨c, hc⟩ := Option.isSome_iff_exists.1 (Bitcast.between_join kind slot)
  rw [h] at hc
  refine ⟨c, hc, fun w hw => ?_⟩
  subst hw
  obtain ⟨x, hx, hkind, hback⟩ := Word.exists_coerce h
  rw [Word.coerce, hc] at hx
  rw [Word.uncoerce, hkind, hc] at hback
  exact ⟨x, hx, hkind, hback⟩

/-! ### Slots of a shape -/

namespace Shape

variable {s : Shape} {i : Nat} {kinds slots : List CoreType}

theorem flattenCases_eq (cases : List (String × Option Shape)) :
    flattenCases cases =
      ((cases.filterMap (·.2)).mapM flatten).map fun rows => rows.foldr joinWords [] := by
  induction cases with
  | nil => rfl
  | cons case cases ih =>
    obtain ⟨label, payload⟩ := case
    cases payload with
    | none => rw [flattenCases, ih, List.filterMap_cons_none rfl]
    | some s =>
      have hcons : ((label, some s) :: cases).filterMap (·.2) = s :: cases.filterMap (·.2) := rfl
      rw [flattenCases, ih, hcons, List.mapM_cons]
      cases s.flatten with
      | error e => rfl
      | ok words => cases (cases.filterMap (·.2)).mapM flatten <;> rfl

theorem flattenFields_append {before after : List (String × Shape)} {words : List CoreType}
    (h : flattenFields before = .ok words) :
    flattenFields (before ++ after) = (flattenFields after).map (words ++ ·) := by
  induction before generalizing words with
  | nil =>
    cases h
    rw [List.nil_append]
    cases flattenFields after <;> rfl
  | cons field before ih =>
    rw [flattenFields] at h
    obtain ⟨first, hfirst, h⟩ := Except.bind_eq_ok.1 h
    obtain ⟨more, hmore, h⟩ := Except.bind_eq_ok.1 h
    cases h
    rw [List.cons_append, flattenFields, hfirst, ih hmore]
    cases flattenFields after with
    | error e => rfl
    | ok rest => exact congrArg Except.ok (List.append_assoc _ _ _).symm

/-- What a word of the shape, at the given position, is moved through: the first of the kinds is
that of the position, the last is that of a scalar, a pointer, a length or a case index in the
shape, and those in between are slots of the sums around it. -/
inductive Holds : Shape → Nat → List CoreType → Prop where
  | leaf {l : Leaf} : Holds (.leaf l) 0 [l.core]
  | string {i : Nat} (h : i < 2) : Holds .string i [.i32]
  | list {element : TypeId} {i : Nat} (h : i < 2) : Holds (.list element) i [.i32]
  | field {kind : ProductKind} {before after : List (String × Shape)} {label : String} {s : Shape}
      {words slots : List CoreType} {i : Nat} (flat : flattenFields before = .ok words)
      (inner : Holds s i slots) :
      Holds (.product kind (before ++ (label, s) :: after)) (words.length + i) slots
  | index {kind : SumKind} {cases : List (String × Option Shape)} : Holds (.sum kind cases) 0 [.i32]
  | payload {kind : SumKind} {cases : List (String × Option Shape)} {label : String} {s : Shape}
      {shared slots : List CoreType} {i : Nat} {slot : CoreType}
      (flat : flattenCases cases = .ok shared) (mem : (label, some s) ∈ cases)
      (inner : Holds s i slots) (place : shared[i]? = some slot) :
      Holds (.sum kind cases) (i + 1) (slot :: slots)

/-- Each slot on the way is a join with the one inside it. -/
theorem Holds.isChain (h : Holds s i slots) (hk : s.flatten = .ok kinds) :
    ∃ kind, kinds[i]? = some kind ∧ slots.head? = some kind ∧
      slots.IsChain fun outer inner => inner.join outer = outer := by
  induction h generalizing kinds with
  | leaf =>
    rw [flatten] at hk
    obtain ⟨_, -, rfl⟩ := Except.map_eq_ok.1 hk
    exact ⟨_, rfl, rfl, .singleton _⟩
  | string hi | list hi =>
    cases hk
    refine ⟨.i32, ?_, rfl, .singleton _⟩
    exact (List.getElem?_replicate_of_lt hi : (List.replicate 2 CoreType.i32)[_]? = _)
  | index =>
    rw [flatten] at hk
    obtain ⟨_, -, rfl⟩ := Except.map_eq_ok.1 hk
    exact ⟨_, rfl, rfl, .singleton _⟩
  | @field kind before after label s words slots i flat inner ih =>
    rw [flatten, flattenFields_append flat, flattenFields] at hk
    obtain ⟨_, hrest, rfl⟩ := Except.map_eq_ok.1 hk
    obtain ⟨own, hown, hrest⟩ := Except.bind_eq_ok.1 hrest
    obtain ⟨more, hmore, hrest⟩ := Except.bind_eq_ok.1 hrest
    cases hrest
    obtain ⟨kind, hkind, hhead, hchain⟩ := ih hown
    refine ⟨kind, ?_, hhead, hchain⟩
    rw [List.getElem?_append_right (Nat.le_add_right _ _), Nat.add_sub_cancel_left,
      List.getElem?_append_left (List.getElem?_eq_some_iff.1 hkind).1, hkind]
  | @payload kind cases label s shared slots i slot flat mem inner place ih =>
    rw [flatten, flat] at hk
    cases hk
    obtain ⟨own, hown, hjoin⟩ := fits_slots flat mem
    obtain ⟨kind, hkind, hhead, hchain⟩ := ih hown
    obtain ⟨slot', hslot', hinto⟩ := exists_slot hjoin hkind
    rw [place] at hslot'
    cases hslot'
    obtain ⟨rest, rfl⟩ : ∃ rest, slots = kind :: rest := List.head?_eq_some_iff.1 hhead
    exact ⟨slot, place, rfl, List.isChain_cons_cons.2 ⟨hinto, hchain⟩⟩

mutual

/-- There is a way for the word at each position. -/
theorem exists_holds : (s : Shape) → {kinds : List CoreType} → {i : Nat} →
    s.flatten = .ok kinds → i < kinds.length → ∃ slots, Holds s i slots
  | leaf l, _, i, hk, hi => by
    rw [flatten] at hk
    obtain ⟨_, -, rfl⟩ := Except.map_eq_ok.1 hk
    obtain rfl := Nat.lt_one_iff.1 hi
    exact ⟨_, .leaf⟩
  | string, _, i, hk, hi => by
    cases hk
    exact ⟨_, .string hi⟩
  | list _, _, i, hk, hi => by
    cases hk
    exact ⟨_, .list hi⟩
  | product kind fields, _, i, hk, hi => by
    rw [flatten] at hk
    have hnone : flattenFields [] = .ok [] := rfl
    obtain ⟨slots, hs⟩ := exists_holds_field kind fields hnone hk hi
    rw [List.nil_append, List.length_nil, Nat.zero_add] at hs
    exact ⟨slots, hs⟩
  | sum kind cases, _, i, hk, hi => by
    rw [flatten] at hk
    obtain ⟨slots, hslots, rfl⟩ := Except.map_eq_ok.1 hk
    cases i with
    | zero => exact ⟨_, .index⟩
    | succ i =>
      have hi := Nat.lt_of_succ_lt_succ hi
      obtain ⟨label, s, inner, hm, hinner⟩ := exists_holds_case cases hslots hi
      exact ⟨_, .payload hslots hm hinner (List.getElem?_eq_getElem hi)⟩
  | unsupported .., _, _, hk, _ | unresolved _, _, _, hk, _ => by
    rw [flatten] at hk
    cases hk
termination_by structural s => s

theorem exists_holds_field (kind : ProductKind) : (fields : List (String × Shape)) →
    {before : List (String × Shape)} → {words kinds : List CoreType} → {i : Nat} →
    flattenFields before = .ok words → flattenFields fields = .ok kinds → i < kinds.length →
    ∃ slots, Holds (.product kind (before ++ fields)) (words.length + i) slots
  | [], _, _, _, _, _, hk, hi => by
    cases hk
    cases hi
  | (label, s) :: rest, before, words, _, i, hbefore, hk, hi => by
    rw [flattenFields] at hk
    obtain ⟨own, hown, hk⟩ := Except.bind_eq_ok.1 hk
    obtain ⟨more, hmore, hk⟩ := Except.bind_eq_ok.1 hk
    cases hk
    by_cases hown' : i < own.length
    · obtain ⟨slots, hs⟩ := exists_holds s hown hown'
      exact ⟨slots, .field hbefore hs⟩
    · have hsingle : flattenFields [(label, s)] = .ok own := by
        rw [flattenFields, hown]
        exact congrArg Except.ok (List.append_nil own)
      have hnext : flattenFields (before ++ [(label, s)]) = .ok (words ++ own) := by
        rw [flattenFields_append hbefore, hsingle]
        rfl
      rw [List.length_append] at hi
      have hlt : i - own.length < more.length := by omega
      obtain ⟨slots, hs⟩ := exists_holds_field kind rest hnext hmore hlt
      rw [List.append_assoc, List.length_append] at hs
      have hpos : words.length + own.length + (i - own.length) = words.length + i := by omega
      exact ⟨slots, hpos ▸ hs⟩
termination_by structural fields => fields

theorem exists_holds_case : (cases : List (String × Option Shape)) → {shared : List CoreType} →
    {i : Nat} → flattenCases cases = .ok shared → i < shared.length →
    ∃ label s slots, (label, some s) ∈ cases ∧ Holds s i slots
  | [], _, _, hk, hi => by
    cases hk
    cases hi
  | (_, none) :: rest, _, _, hk, hi => by
    rw [flattenCases] at hk
    obtain ⟨label, s, slots, hm, hs⟩ := exists_holds_case rest hk hi
    exact ⟨label, s, slots, List.mem_cons_of_mem _ hm, hs⟩
  | (label, some s) :: rest, _, i, hk, hi => by
    rw [flattenCases] at hk
    obtain ⟨words, hwords, hk⟩ := Except.bind_eq_ok.1 hk
    obtain ⟨more, hmore, hk⟩ := Except.bind_eq_ok.1 hk
    cases hk
    rw [length_joinWords] at hi
    rcases (by omega : i < words.length ∨ i < more.length) with hi | hi
    · obtain ⟨slots, hs⟩ := exists_holds s hwords hi
      exact ⟨label, s, slots, List.mem_cons_self, hs⟩
    · obtain ⟨label', s', slots, hm, hs⟩ := exists_holds_case rest hmore hi
      exact ⟨label', s', slots, List.mem_cons_of_mem _ hm, hs⟩
termination_by structural cases => cases

end

end Shape

/-! ### Slots of cases -/

namespace Abi

variable {abi : Abi} {cases : List (Option TypeId)}

theorem flattenCases_eq (cases : List (Option TypeId)) :
    abi.flattenCases cases =
      (cases.reduceOption.mapM abi.flatten).map fun rows => rows.foldr joinWords [] := by
  have hpayloads : (cases.map fun payload => ("", payload.map abi.shape)).filterMap (·.2) =
      cases.reduceOption.map abi.shape := by
    rw [List.filterMap_map, List.reduceOption, List.map_filterMap]
    rfl
  rw [flattenCases, Shape.flattenCases_eq, hpayloads, List.mapM_map]
  rfl

/-- The slots that some cases share depend only on the types of their payloads, neither on their
order nor on repetitions, and they are as many as the payload with the most words has. Each word of
a payload goes into its slot by a cast that can be undone. If it already stands in slots of the
payload, one inside the other, it gets through all of them as through that one, and comes back. -/
theorem flattenCases_lossless
    (h : ∀ id, some id ∈ cases → ∃ kinds, abi.flatten id = .ok kinds) :
    ∃ rows slots, cases.reduceOption.mapM abi.flatten = .ok rows ∧
      abi.flattenCases cases = .ok slots ∧ slots = rows.foldl joinWords [] ∧
      slots.length = (rows.map List.length).foldr max 0 ∧
      (∀ others, (∀ id, some id ∈ others ↔ some id ∈ cases) →
        abi.flattenCases others = .ok slots) ∧
      ∀ id, some id ∈ cases → ∀ kinds, abi.flatten id = .ok kinds →
        ∀ i kind, kinds[i]? = some kind →
          ∃ slot, slots[i]? = some slot ∧ kind.Embeds slot ∧
            (∃ inner, (abi.shape id).Holds i inner) ∧
            ∀ inner, (abi.shape id).Holds i inner → inner.head? = some kind ∧
              ∀ w : Word, inner.getLast? = some w.kind →
                ∃ x, w.enter (slot :: inner) = .ok x ∧ x.kind = slot ∧ w.coerce slot = .ok x ∧
                  x.leave (slot :: inner) = .ok w := by
  have hrows : ∀ others : List (Option TypeId), (∀ id, some id ∈ others → some id ∈ cases) →
      ∃ rows, others.reduceOption.mapM abi.flatten = .ok rows := fun others hsub =>
    Except.mapM_eq_ok_of_forall fun id hid => h id (hsub id (List.reduceOption_mem_iff.1 hid))
  obtain ⟨rows, hr⟩ := hrows cases fun _ hid => hid
  have hslots : abi.flattenCases cases = .ok (rows.foldr joinWords []) := by
    rw [flattenCases_eq, hr]
    rfl
  refine ⟨rows, _, hr, hslots, List.foldl_eq_foldr.symm, length_foldr_joinWords rows,
    fun others hsame => ?_, fun id hid kinds hk i kind hkind => ?_⟩
  · obtain ⟨rows', hr'⟩ := hrows others fun id => (hsame id).1
    have hmem (row : List CoreType) : row ∈ rows' ↔ row ∈ rows := by
      constructor
      · intro hrow
        obtain ⟨id, hid, hflat⟩ := Except.exists_of_mem_mapM hr' hrow
        have hid := List.reduceOption_mem_iff.2 ((hsame id).1 (List.reduceOption_mem_iff.1 hid))
        obtain ⟨row', hrow', hflat'⟩ := Except.exists_mem_of_mem_mapM hr hid
        exact Except.ok.inj (hflat'.symm.trans hflat) ▸ hrow'
      · intro hrow
        obtain ⟨id, hid, hflat⟩ := Except.exists_of_mem_mapM hr hrow
        have hid := List.reduceOption_mem_iff.2 ((hsame id).2 (List.reduceOption_mem_iff.1 hid))
        obtain ⟨row', hrow', hflat'⟩ := Except.exists_mem_of_mem_mapM hr' hid
        exact Except.ok.inj (hflat'.symm.trans hflat) ▸ hrow'
    rw [flattenCases_eq, hr', ← foldr_joinWords_congr hmem]
    rfl
  · obtain ⟨row, hrow, hflat⟩ := Except.exists_mem_of_mem_mapM hr (List.reduceOption_mem_iff.2 hid)
    obtain rfl : kinds = row := Except.ok.inj (hk.symm.trans hflat)
    obtain ⟨slot, hslot, hinto⟩ := exists_slot (joinWords_foldr_of_mem hrow) hkind
    refine ⟨slot, hslot, CoreType.embeds_of_join hinto, ?_, fun inner hinner => ?_⟩
    · exact Shape.exists_holds _ hk (List.getElem?_eq_some_iff.1 hkind).1
    · obtain ⟨kind', hkind', hhead, hchain⟩ := hinner.isChain hk
      rw [hkind] at hkind'
      cases hkind'
      refine ⟨hhead, fun w hw => ?_⟩
      obtain ⟨rest, rfl⟩ : ∃ rest, inner = kind :: rest := List.head?_eq_some_iff.1 hhead
      exact (Word.exists_enter (List.isChain_cons_cons.2 ⟨hinto, hchain⟩) hw rfl).2

/-- A number and a fraction, a result with either of them, and a pair of short fractions. -/
def readings : Abi where
  arena := ⟨#[.scalar .u64, .scalar .f64, .result (some ⟨0⟩) (some ⟨1⟩), .scalar .f32,
    .tuple [⟨3⟩, ⟨3⟩]]⟩

/-- The short fractions share a word with the case index of the result, and with its payloads. -/
theorem flattenCases_lossless_readings :
    readings.flattenCases [some ⟨4⟩, none, some ⟨2⟩] = .ok [.i32, .i64] ∧
      readings.flattenCases [some ⟨2⟩, some ⟨4⟩, some ⟨2⟩] = .ok [.i32, .i64] ∧
      CoreType.f32.Embeds .i64 := by
  have hflat : ∀ id, some id ∈ [some ⟨4⟩, none, some ⟨2⟩] →
      ∃ kinds, readings.flatten id = .ok kinds := by
    intro id hid
    have hid : id = ⟨4⟩ ∨ id = ⟨2⟩ := by simpa using hid
    rcases hid with rfl | rfl <;> exact ⟨_, rfl⟩
  obtain ⟨rows, slots, -, hslots, -, -, hsame, hlossless⟩ := flattenCases_lossless hflat
  have hpair : readings.flattenCases [some ⟨4⟩, none, some ⟨2⟩] = .ok [.i32, .i64] := rfl
  rw [hpair] at hslots
  cases hslots
  refine ⟨hpair, hsame _ fun id => by simp [or_comm], ?_⟩
  obtain ⟨slot, hslot, hembeds, -⟩ := hlossless ⟨4⟩ List.mem_cons_self [.f32, .f32] rfl 1 .f32 rfl
  cases hslot
  exact hembeds

end Abi

end ComponentAbi
