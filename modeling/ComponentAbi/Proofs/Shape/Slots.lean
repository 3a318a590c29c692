import ComponentAbi.Marshal.Lower
import ComponentAbi.Marshal.Lift
import ComponentAbi.Proofs.Except

/-!
# Words in shared slots

The payloads of all cases of a sum share their slots. The words of every payload fit into the slots
(`Shape.fits_slots`), and come out again as they went in (`Shape.fillSlots_drainSlots`).
-/

namespace ComponentAbi

theorem Word.kind_coerce {w x : Word} {slot : CoreType} (h : w.coerce slot = .ok x) :
    x.kind = slot := by
  cases w <;> cases slot <;>
    simp only [coerce, kind, Bitcast.between, cast, Bitcast.ends, ↓reduceIte, ofBits,
      reduceCtorEq, Except.ok.injEq] at h <;>
    subst h <;> rfl

namespace Shape

/-- The words of every payload can be moved into the slots that all cases share. -/
theorem fits_slots {cases : List (String × Option Shape)} {label : String} {s : Shape}
    {slots : List CoreType} (h : flattenCases cases = .ok slots)
    (hm : (label, some s) ∈ cases) :
    ∃ kinds, s.flatten = .ok kinds ∧ joinWords kinds slots = slots := by
  induction cases generalizing slots with
  | nil => cases hm
  | cons case cases ih =>
    obtain ⟨other, payload⟩ := case
    cases payload with
    | none =>
      rw [flattenCases] at h
      refine ih h ((List.mem_cons.1 hm).resolve_left fun he => ?_)
      cases he
    | some payload =>
      rw [flattenCases] at h
      obtain ⟨words, hw, h⟩ := Except.bind_eq_ok.1 h
      obtain ⟨more, hmore, h⟩ := Except.bind_eq_ok.1 h
      cases h
      rcases List.mem_cons.1 hm with he | hm
      · cases he
        refine ⟨words, hw, ?_⟩
        rw [← joinWords_assoc, joinWords_self]
      · obtain ⟨kinds, hk, hj⟩ := ih hmore hm
        refine ⟨kinds, hk, ?_⟩
        rw [← joinWords_assoc, joinWords_comm kinds words, joinWords_assoc, hj]

theorem length_fillSlots {slots : List CoreType} {ws filled : List Word}
    (h : fillSlots slots ws = .ok filled) : slots.length = filled.length := by
  induction slots generalizing ws filled with
  | nil => cases h; rfl
  | cons slot slots ih =>
    cases ws with
    | nil =>
      obtain ⟨filled, hf, rfl⟩ := Except.map_eq_ok.1 h
      exact congrArg Nat.succ (ih hf)
    | cons w ws =>
      obtain ⟨_, -, h⟩ := Except.bind_eq_ok.1 h
      obtain ⟨filled, hf, h⟩ := Except.bind_eq_ok.1 h
      cases h
      exact congrArg Nat.succ (ih hf)

/-- Words that fit into some slots fill them, and are read back out of them. -/
theorem fillSlots_drainSlots {slots : List CoreType} {ws : List Word}
    (h : joinWords (ws.map Word.kind) slots = slots) :
    ∃ filled, fillSlots slots ws = .ok filled ∧ filled.map Word.kind = slots ∧
      drainSlots filled (ws.map Word.kind) = .ok ws := by
  induction slots generalizing ws with
  | nil =>
    cases ws with
    | nil => exact ⟨[], rfl, rfl, rfl⟩
    | cons w ws => cases h
  | cons slot slots ih =>
    cases ws with
    | nil =>
      obtain ⟨filled, hf, hk, -⟩ := @ih [] rfl
      refine ⟨Word.zero slot :: filled, ?_, ?_, rfl⟩
      · rw [fillSlots, hf]
        rfl
      · rw [List.map_cons, hk, Word.zero, Word.kind_ofBits]
    | cons w ws =>
      obtain ⟨hj, hrest⟩ := List.cons.inj h
      obtain ⟨filled, hf, hk, hd⟩ := ih hrest
      obtain ⟨x, hx, hw⟩ := Except.bind_eq_ok.1 (Word.cast_between_join w slot)
      rw [hj] at hx
      refine ⟨x :: filled, ?_, ?_, ?_⟩
      · rw [fillSlots, hx, hf]
        rfl
      · rw [List.map_cons, hk, Word.kind_coerce hx]
      · rw [List.map_cons, drainSlots, hw, hd]
        rfl

end Shape

end ComponentAbi
