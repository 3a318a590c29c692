import ComponentAbi.Marshal.Lift
import ComponentAbi.Marshal.Lower
import ComponentAbi.Proofs.Memory.Release

/-!
# Texts in memory

A text is copied into a block of its own when it is lowered, and read back from there when it is
lifted. `TextAt` says that a text is at an address; lowering a text puts it there
(`runOn_lowerString`), and lifting finds it (`TextAt.liftString`).
-/

namespace ComponentAbi

/-! ### Bytes of a text -/

theorem ByteArray.toList_loop (b : ByteArray) (i : Nat) (acc : List UInt8) :
    ByteArray.toList.loop b i acc = acc.reverse ++ b.data.toList.drop i := by
  fun_induction ByteArray.toList.loop b i acc with
  | case1 i acc h ih =>
    have hi : i < b.data.toList.length := h
    have hget : b.get! i = b.data.toList[i] := by
      rw [ByteArray.get!, Array.getElem_toList]
      exact getElem!_pos b.data i hi
    rw [ih, List.drop_eq_getElem_cons hi, List.reverse_cons, List.append_assoc, hget]
    rfl
  | case2 i acc h =>
    have hi : b.data.toList.length ≤ i := Nat.not_lt.1 h
    rw [List.drop_eq_nil_of_le hi, List.append_nil]

theorem fromUTF8?_toUTF8 (text : String) :
    String.fromUTF8? ⟨text.toUTF8.toList.toArray⟩ = some text := by
  have h : (⟨text.toUTF8.toList.toArray⟩ : ByteArray) = text.toByteArray := by
    rw [ByteArray.toList, ByteArray.toList_loop]
    simp
  rw [h, String.fromUTF8?, dif_pos text.isValidUTF8]
  rfl

/-! ### Texts -/

open Memory MemoryM

variable {m m' : Memory} {text : String} {start length : Nat} {bs : List Block}

/-- The text is at an address in memory, in a block of its own. -/
structure TextAt (m : Memory) (text : String) (start length : Nat) (bs : List Block) : Prop where
  /-- Its bytes are there. -/
  read : m.read start length = .ok text.toUTF8.toList
  /-- It owns the block that holds them. -/
  owned : bs = Block.ofArea start length 1
  /-- The address fits a word. -/
  start_lt : start < UInt32.size
  /-- So does the length. -/
  length_lt : length < UInt32.size

theorem TextAt.liftString (h : TextAt m text start length bs) :
    liftString m start length = .ok text := by
  rw [ComponentAbi.liftString, h.read]
  simp only [bind, Except.bind, fromUTF8?_toUTF8]
  rfl

theorem TextAt.frame (h : TextAt m text start length bs)
    (hb : ∀ b ∈ bs, SameOn b.start (b.start + b.size) m m') : TextAt m' text start length bs := by
  refine ⟨?_, h.owned, h.start_lt, h.length_lt⟩
  by_cases hl : length = 0
  · have hr := h.read
    rw [hl, Memory.read] at hr ⊢
    exact hr
  · refine SameOn.read (hb ⟨start, length, 1, true⟩ ?_) h.read
    rw [h.owned, Block.ofArea, if_neg hl]
    exact List.mem_singleton_self _

/-- Lowering a text copies it into a new block. -/
theorem runOn_lowerString (m : Memory) (text : String) (lo hi : Nat) :
    ∃ start length bs m', runOn (lowerString text) m = (.ok (start, length), m') ∧
      Grows lo hi bs m m' ∧ (m'.size < UInt32.size → TextAt m' text start length bs) := by
  have hcovers := covers_alloc m text.toUTF8.toList.length Nat.one_pos
  have hroom : text.toUTF8.toList = [] ∨
      (m.alloc text.toUTF8.toList.length 1).1 + text.toUTF8.toList.length ≤
        (m.alloc text.toUTF8.toList.length 1).2.size := by
    by_cases hd : text.toUTF8.toList = []
    · exact .inl hd
    · have := List.length_pos_of_ne_nil hd
      exact .inr (hcovers (by omega))
  obtain ⟨m', hw, hsize, hg, hr⟩ := write_eq_ok hroom
  refine ⟨_, _, _, m', ?_, hg.of_alloc Nat.one_pos,
    fun hlt => ⟨hr, by rw [List.append_nil], ?_, ?_⟩⟩
  · rw [lowerString, runOn_bind_of_ok (runOn_alloc _ _ m), runOn_bind, runOn_write, hw]
    rfl
  · exact alloc_start_lt m Nat.one_pos (hsize ▸ hlt)
  · by_cases hd : text.toUTF8.toList.length = 0
    · rw [hd]
      decide
    · have := hcovers (by omega)
      omega

end ComponentAbi
