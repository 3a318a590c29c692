import ComponentAbi.Json.Reader
import Mathlib.Data.List.DropRight
import Mathlib.Tactic.IntervalCases

/-!
# The text of JSON values

A text spells a value if it is the value written out with any blanks around its parts
(`Json.Spells`). The reader takes such a value off a text, whatever follows it
(`Json.Spells.reads`), as long as the value is not nested too deeply.

Both printers spell values without numbers (`Json.Plain`), so that these are read back from their
text (`Json.Plain.parse?_compact`, `Json.Plain.parse?_pretty`).
-/

namespace ComponentAbi

namespace Json

open Reader

/-! ### Strings -/

/-- The part of a written string that a character is written as. -/
def writtenPiece (c : Char) : Piece :=
  if c.toNat < 32 ∧ c.toNat ∉ [8, 9, 10, 12, 13] then .unit c.toNat else .char c

theorem pieces_escape (c : Char) (cs : List Char) :
    pieces ((escape c).toList ++ cs) = do
      let (more, rest) ← pieces cs
      return (writtenPiece c :: more, rest) := by
  rcases Nat.lt_or_ge c.toNat 32 with hc | hc
  · obtain ⟨n, hn, rfl⟩ : ∃ n < 32, c = Char.ofNat n := ⟨_, hc, c.ofNat_toNat.symm⟩
    clear hc
    interval_cases n <;> rfl
  · rw [escape.eq_def]
    split
    · rfl
    · rfl
    · rfl
    · rfl
    · rfl
    · next hquote hescape _ _ _ =>
      rw [if_neg (by omega), if_neg (by omega), if_neg (by omega), String.toList_singleton,
        List.singleton_append, pieces]
      · simp [writtenPiece, Nat.not_lt.2 hc]
      · exact hquote
      · exact fun _ _ _ _ _ h _ => hescape h
      · exact fun _ _ h _ => hescape h

theorem pieces_escapes (cs rest : List Char) :
    pieces (cs.flatMap (fun c => (escape c).toList) ++ '"' :: rest) =
      some (cs.map writtenPiece, rest) := by
  induction cs with
  | nil => rw [List.flatMap_nil, List.nil_append, pieces, List.map_nil]
  | cons c cs ih =>
    rw [List.flatMap_cons, List.append_assoc, pieces_escape, ih]
    rfl

theorem characters_unit {n : Nat} (hn : n < 0xD800) (rest : List Piece) :
    characters (.unit n :: rest) = (characters rest).map (Char.ofNat n :: ·) := by
  have hhigh : isHigh n = false := by simp [isHigh]; omega
  have hlow : isLow n = false := by simp [isLow]; omega
  cases rest with
  | nil => simp [characters, hhigh, hlow]
  | cons p rest => cases p <;> simp [characters, hhigh, hlow]

theorem characters_written (cs : List Char) : characters (cs.map writtenPiece) = some cs := by
  induction cs with
  | nil => rfl
  | cons c cs ih =>
    rw [List.map_cons, writtenPiece]
    split
    · next h =>
      rw [characters_unit (by omega), ih, Char.ofNat_toNat]
      rfl
    · rw [characters, ih]
      rfl

theorem toList_quote (s : String) :
    (quote s).toList = '"' :: (s.toList.flatMap (fun c => (escape c).toList) ++ ['"']) := by
  simp [quote, List.flatMap_map]

/-- A written string is read back. -/
theorem text_escapes (s : String) (rest : List Char) :
    text (s.toList.flatMap (fun c => (escape c).toList) ++ '"' :: rest) = some (some s, rest) := by
  rw [text, pieces_escapes]
  simp [characters_written]

/-! ### Blanks -/

/-- There is nothing but blanks in a text. -/
def Blank (cs : List Char) : Prop :=
  skipBlanks cs = []

theorem blank_nil : Blank [] := rfl

theorem skipBlanks_append {blanks : List Char} (h : Blank blanks) (cs : List Char) :
    skipBlanks (blanks ++ cs) = skipBlanks cs := by
  rw [skipBlanks, List.dropWhile_append, if_pos (by rw [← skipBlanks, h]; rfl), ← skipBlanks]

theorem skipBlanks_skipBlanks (cs : List Char) : skipBlanks (skipBlanks cs) = skipBlanks cs :=
  List.dropWhile_idempotent _ _

theorem Blank.append {cs cs' : List Char} (h : Blank cs) (h' : Blank cs') : Blank (cs ++ cs') :=
  (skipBlanks_append h cs').trans h'

theorem blank_space : Blank [' '] := rfl

theorem blank_line (n : Nat) : Blank ('\n' :: List.replicate n ' ') := by
  induction n with
  | zero => rfl
  | succ n ih => exact ih

/-! ### Spelling -/

/-- A member of an object with its text. -/
structure SpelledMember where
  /-- The blanks before the name. -/
  before : List Char
  name : String
  /-- The blanks after the name. -/
  after : List Char
  value : Json
  /-- The text of the value. -/
  text : List Char

namespace SpelledMember

/-- The text of a member. -/
def toText (m : SpelledMember) : List Char :=
  m.before ++ ((quote m.name).toList ++ (m.after ++ ':' :: m.text))

end SpelledMember

/-- The text is a value that is written out with any blanks around its parts. -/
inductive Spells : Json → List Char → Prop
  | null : Spells null "null".toList
  | true : Spells (bool true) "true".toList
  | false : Spells (bool false) "false".toList
  | string (s : String) : Spells (string s) (quote s).toList
  | array {parts : List (Json × List Char)} {blanks : List Char}
    (h : ∀ p ∈ parts, Spells p.1 p.2) (hb : Blank blanks) :
    Spells (array (parts.map (·.1)))
      ('[' :: ([','].intercalate (parts.map (·.2)) ++ (blanks ++ [']'])))
  | object {parts : List SpelledMember} {blanks : List Char}
    (h : ∀ m ∈ parts, Spells m.value m.text) (hm : ∀ m ∈ parts, Blank m.before ∧ Blank m.after)
    (hb : Blank blanks) :
    Spells (object (parts.map fun m => (m.name, m.value)))
      ('\x7b' :: ([','].intercalate (parts.map SpelledMember.toText) ++ (blanks ++ ['\x7d'])))
  | blanks {j : Json} {before cs after : List Char} (hb : Blank before) (ha : Blank after)
    (h : Spells j cs) : Spells j (before ++ cs ++ after)

theorem Spells.after {j : Json} {blanks cs : List Char} (h : Spells j cs) (hb : Blank blanks) :
    Spells j (blanks ++ cs) := by
  rw [← List.append_nil (blanks ++ cs)]
  exact h.blanks hb blank_nil

/-! ### Reading what is spelled -/

section Reading

variable {fuel levels : Nat} {cs cs' rest : List Char} {j : Json}

theorem value_congr (h : skipBlanks cs = skipBlanks cs') :
    value fuel levels cs = value fuel levels cs' := by
  cases fuel with
  | zero => rfl
  | succ fuel => rw [value, value, h]

theorem items_congr (h : skipBlanks cs = skipBlanks cs') :
    items fuel levels cs = items fuel levels cs' := by
  cases fuel with
  | zero => rfl
  | succ fuel => rw [items, items, value_congr h]

theorem members_congr (h : skipBlanks cs = skipBlanks cs') :
    members fuel levels cs = members fuel levels cs' := by
  cases fuel with
  | zero => rfl
  | succ fuel => rw [members, members, h]

/-- No value starts with a closing bracket. -/
theorem value_closing (h : skipBlanks cs = ']' :: rest) : value fuel levels cs = none := by
  cases fuel with
  | zero => rfl
  | succ fuel =>
    rw [value, h]
    rfl

theorem items_closing (h : skipBlanks cs = ']' :: rest) : items fuel levels cs = none := by
  cases fuel with
  | zero => rfl
  | succ fuel =>
    rw [items, value_closing h]
    rfl

theorem members_closing (h : skipBlanks cs = '\x7d' :: rest) : members fuel levels cs = none := by
  cases fuel with
  | zero => rfl
  | succ fuel =>
    rw [members, h]
    rfl

theorem value_quote (s : String) :
    value (fuel + 1) levels ((quote s).toList ++ rest) = some (string s, rest) := by
  rw [toList_quote, List.cons_append, List.append_assoc]
  change (text (s.toList.flatMap (fun c => (escape c).toList) ++ '"' :: rest)).bind _ = _
  rw [text_escapes]
  rfl

theorem skipBlanks_opening_array (cs : List Char) : skipBlanks ('[' :: cs) = '[' :: cs := rfl

theorem skipBlanks_opening_object (cs : List Char) : skipBlanks ('\x7b' :: cs) = '\x7b' :: cs := rfl

theorem value_array_nil (h : skipBlanks cs = ']' :: rest) :
    value (fuel + 1) levels ('[' :: cs) = some (limited levels (array []), rest) := by
  rw [value]
  simp only [skipBlanks_opening_array, h]

theorem value_object_nil (h : skipBlanks cs = '\x7d' :: rest) :
    value (fuel + 1) levels ('\x7b' :: cs) = some (limited levels (object []), rest) := by
  rw [value]
  simp only [skipBlanks_opening_object, h]

/-- An array is read by reading its items. -/
theorem value_array {read : List Json} (h : items fuel (levels - 1) cs = some (read, rest)) :
    value (fuel + 1) levels ('[' :: cs) = some (limited levels (array read), rest) := by
  rw [← items_congr (skipBlanks_skipBlanks cs)] at h
  rw [value]
  simp only [skipBlanks_opening_array]
  split
  · next hclosing =>
    rw [items_closing (congrArg skipBlanks hclosing)] at h
    cases h
  · rw [h]
    rfl

/-- An object is read by reading its members. -/
theorem value_object {read : List (Option String × Json)}
    (h : members fuel (levels - 1) cs = some (read, rest)) :
    value (fuel + 1) levels ('\x7b' :: cs) = some (limited levels (objectOf read), rest) := by
  rw [← members_congr (skipBlanks_skipBlanks cs)] at h
  rw [value]
  simp only [skipBlanks_opening_object]
  split
  · next hclosing =>
    rw [members_closing (congrArg skipBlanks hclosing)] at h
    cases h
  · rw [h]
    rfl

theorem items_last (h : value fuel levels cs = some (j, cs')) (hs : skipBlanks cs' = ']' :: rest) :
    items (fuel + 1) levels cs = some ([j], rest) := by
  rw [items, h]
  simp only [Option.bind_eq_bind, Option.bind_some, hs]
  rfl

theorem items_more {read : List Json} {more : List Char}
    (h : value fuel levels cs = some (j, cs')) (hs : skipBlanks cs' = ',' :: more)
    (hmore : items fuel levels more = some (read, rest)) :
    items (fuel + 1) levels cs = some (j :: read, rest) := by
  rw [items, h]
  simp only [Option.bind_eq_bind, Option.bind_some, hs, hmore]
  rfl

section Members

variable {m : SpelledMember}

theorem skipBlanks_toText (hb : Blank m.before) (cs : List Char) :
    skipBlanks (m.toText ++ cs) = '"' ::
      (m.name.toList.flatMap (fun c => (escape c).toList) ++ '"' ::
        (m.after ++ ':' :: (m.text ++ cs))) := by
  rw [SpelledMember.toText, List.append_assoc, skipBlanks_append hb, toList_quote]
  simp [skipBlanks]

theorem skipBlanks_colon {blanks : List Char} (hb : Blank blanks) (cs : List Char) :
    skipBlanks (blanks ++ ':' :: cs) = ':' :: cs :=
  skipBlanks_append hb _

theorem members_last (hb : Blank m.before) (ha : Blank m.after)
    (h : value fuel levels (m.text ++ cs) = some (m.value, cs'))
    (hs : skipBlanks cs' = '\x7d' :: rest) :
    members (fuel + 1) levels (m.toText ++ cs) = some ([(some m.name, m.value)], rest) := by
  rw [members, skipBlanks_toText hb]
  simp only [text_escapes, skipBlanks_colon ha, h, hs, Option.bind_eq_bind, Option.bind_some]
  rfl

theorem members_more {read : List (Option String × Json)} {more : List Char}
    (hb : Blank m.before) (ha : Blank m.after)
    (h : value fuel levels (m.text ++ cs) = some (m.value, cs'))
    (hs : skipBlanks cs' = ',' :: more) (hmore : members fuel levels more = some (read, rest)) :
    members (fuel + 1) levels (m.toText ++ cs) = some ((some m.name, m.value) :: read, rest) := by
  rw [members, skipBlanks_toText hb]
  simp only [text_escapes, skipBlanks_colon ha, h, hs, hmore, Option.bind_eq_bind,
    Option.bind_some]
  rfl

end Members

end Reading

/-- Whatever follows the text, the reader takes the value off it, perhaps without blanks at its
end. -/
def Reads (levels : Nat) (j : Json) (cs : List Char) : Prop :=
  ∀ fuel rest, 2 * cs.length ≤ fuel →
    ∃ after, Blank after ∧ value fuel levels (cs ++ rest) = some (j, after ++ rest)

theorem items_of_reads {levels : Nat} {parts : List (Json × List Char)} (hne : parts ≠ [])
    (h : ∀ p ∈ parts, Reads levels p.1 p.2) {fuel : Nat} {closing rest : List Char}
    (hc : skipBlanks closing = ']' :: rest)
    (hf : 2 * ([','].intercalate (parts.map (·.2))).length + 2 ≤ fuel) :
    items fuel levels ([','].intercalate (parts.map (·.2)) ++ closing) =
      some (parts.map (·.1), rest) := by
  -- Every item takes a step more than its value does, which is what its comma is counted for.
  obtain ⟨fuel, rfl⟩ : ∃ f, fuel = f + 1 := ⟨fuel - 1, by omega⟩
  induction parts generalizing fuel with
  | nil => exact absurd rfl hne
  | cons p parts ih =>
    obtain ⟨hp, hparts⟩ := List.forall_mem_cons.1 h
    cases parts with
    | nil =>
      simp only [List.map_cons, List.map_nil, List.intercalate_singleton] at hf ⊢
      obtain ⟨after, hafter, hv⟩ := hp fuel closing (by omega)
      exact items_last hv ((skipBlanks_append hafter _).trans hc)
    | cons q parts =>
      simp only [List.map_cons, List.intercalate_cons_cons, List.length_append,
        List.length_singleton, List.append_assoc] at hf ⊢
      obtain ⟨fuel, rfl⟩ : ∃ f, fuel = f + 1 := ⟨fuel - 1, by omega⟩
      obtain ⟨after, hafter, hv⟩ := hp (fuel + 1) _ (by omega)
      exact items_more hv (skipBlanks_append hafter _)
        (ih (List.cons_ne_nil _ _) hparts fuel (by simpa using by omega))

theorem members_of_reads {levels : Nat} {parts : List SpelledMember} (hne : parts ≠ [])
    (h : ∀ m ∈ parts, Reads levels m.value m.text)
    (hm : ∀ m ∈ parts, Blank m.before ∧ Blank m.after) {fuel : Nat} {closing rest : List Char}
    (hc : skipBlanks closing = '\x7d' :: rest)
    (hf : 2 * ([','].intercalate (parts.map SpelledMember.toText)).length + 2 ≤ fuel) :
    members fuel levels ([','].intercalate (parts.map SpelledMember.toText) ++ closing) =
      some (parts.map fun m => (some m.name, m.value), rest) := by
  obtain ⟨fuel, rfl⟩ : ∃ f, fuel = f + 1 := ⟨fuel - 1, by omega⟩
  induction parts generalizing fuel with
  | nil => exact absurd rfl hne
  | cons m parts ih =>
    obtain ⟨hread, hreads⟩ := List.forall_mem_cons.1 h
    obtain ⟨⟨hbefore, hafter⟩, hblanks⟩ := List.forall_mem_cons.1 hm
    have hlength : m.text.length ≤ m.toText.length := by
      simp [SpelledMember.toText]
      omega
    cases parts with
    | nil =>
      simp only [List.map_cons, List.map_nil, List.intercalate_singleton] at hf ⊢
      obtain ⟨after, hend, hv⟩ := hread fuel closing (by omega)
      exact members_last hbefore hafter hv ((skipBlanks_append hend _).trans hc)
    | cons n parts =>
      simp only [List.map_cons, List.intercalate_cons_cons, List.length_append,
        List.length_singleton, List.append_assoc] at hf ⊢
      obtain ⟨fuel, rfl⟩ : ∃ f, fuel = f + 1 := ⟨fuel - 1, by omega⟩
      obtain ⟨after, hend, hv⟩ := hread (fuel + 1) _ (by omega)
      exact members_more hbefore hafter hv (skipBlanks_append hend _)
        (ih (List.cons_ne_nil _ _) hreads hblanks fuel (by simpa using by omega))

/-- What is read back one by one is read back together. -/
theorem mapM_map_of_forall {α β : Type} {read : β → Option α} {write : α → β} {as : List α}
    (h : ∀ a ∈ as, read (write a) = some a) : (as.map write).mapM read = some as := by
  induction as with
  | nil => rfl
  | cons a as ih =>
    obtain ⟨ha, has⟩ := List.forall_mem_cons.1 h
    rw [List.map_cons, List.mapM_cons, ha, ih has]
    rfl

theorem objectOf_some (read : List (String × Json)) :
    objectOf (read.map fun m => (some m.1, m.2)) = object read := by
  rw [objectOf, mapM_map_of_forall]
  exact fun _ _ => rfl

theorem reads_array {levels : Nat} {parts : List (Json × List Char)} {blanks : List Char}
    (h : ∀ p ∈ parts, Reads levels p.1 p.2) (hb : Blank blanks) :
    Reads (levels + 1) (array (parts.map (·.1)))
      ('[' :: ([','].intercalate (parts.map (·.2)) ++ (blanks ++ [']']))) := by
  intro fuel rest hf
  simp only [List.length_cons, List.length_append, List.length_nil] at hf
  obtain ⟨fuel, rfl⟩ : ∃ f, fuel = f + 1 := ⟨fuel - 1, by omega⟩
  refine ⟨[], blank_nil, ?_⟩
  have hclosing : skipBlanks (blanks ++ [']'] ++ rest) = ']' :: rest := by
    rw [List.append_assoc, skipBlanks_append hb]
    rfl
  rw [List.cons_append, List.append_assoc]
  cases parts with
  | nil => exact value_array_nil hclosing
  | cons p parts =>
    exact value_array (items_of_reads (List.cons_ne_nil _ _) h hclosing (by omega))

theorem reads_object {levels : Nat} {parts : List SpelledMember} {blanks : List Char}
    (h : ∀ m ∈ parts, Reads levels m.value m.text)
    (hm : ∀ m ∈ parts, Blank m.before ∧ Blank m.after) (hb : Blank blanks) :
    Reads (levels + 1) (object (parts.map fun m => (m.name, m.value)))
      ('\x7b' :: ([','].intercalate (parts.map SpelledMember.toText) ++ (blanks ++ ['\x7d']))) := by
  intro fuel rest hf
  simp only [List.length_cons, List.length_append, List.length_nil] at hf
  obtain ⟨fuel, rfl⟩ : ∃ f, fuel = f + 1 := ⟨fuel - 1, by omega⟩
  refine ⟨[], blank_nil, ?_⟩
  have hclosing : skipBlanks (blanks ++ ['\x7d'] ++ rest) = '\x7d' :: rest := by
    rw [List.append_assoc, skipBlanks_append hb]
    rfl
  have hnames : objectOf (parts.map fun m => (some m.name, m.value)) =
      object (parts.map fun m => (m.name, m.value)) := by
    rw [← objectOf_some, List.map_map]
    rfl
  rw [List.cons_append, List.append_assoc]
  cases parts with
  | nil => exact value_object_nil hclosing
  | cons m parts =>
    rw [← hnames]
    exact value_object (members_of_reads (List.cons_ne_nil _ _) h hm hclosing (by omega))

/-! ### Nesting -/

theorem depth_le_itemsDepth {j : Json} {items : List Json} (h : j ∈ items) :
    j.depth ≤ itemsDepth items := by
  induction h with
  | head => exact Nat.le_max_left ..
  | tail _ _ ih => exact Nat.le_trans ih (Nat.le_max_right ..)

theorem depth_le_membersDepth {m : String × Json} {members : List (String × Json)}
    (h : m ∈ members) : m.2.depth ≤ membersDepth members := by
  induction h with
  | head => exact Nat.le_max_left ..
  | tail _ _ ih => exact Nat.le_trans ih (Nat.le_max_right ..)

/-- The reader takes a value off the text that spells it, if it is not nested too deeply. -/
theorem Spells.reads {j : Json} {cs : List Char} (h : Spells j cs) {levels : Nat}
    (hd : j.depth ≤ levels) : Reads levels j cs := by
  induction h generalizing levels with
  | null | true | false =>
    intro fuel rest hf
    obtain ⟨fuel, rfl⟩ : ∃ f, fuel = f + 1 := ⟨fuel - 1, by simp at hf; omega⟩
    exact ⟨[], blank_nil, rfl⟩
  | string s =>
    intro fuel rest hf
    obtain ⟨fuel, rfl⟩ : ∃ f, fuel = f + 1 := ⟨fuel - 1, by simp [toList_quote] at hf; omega⟩
    exact ⟨[], blank_nil, value_quote s⟩
  | array h hb ih =>
    rw [depth] at hd
    obtain ⟨levels, rfl⟩ : ∃ n, levels = n + 1 := ⟨levels - 1, by omega⟩
    refine reads_array (fun p hp => ih p hp ?_) hb
    exact Nat.le_trans (depth_le_itemsDepth (List.mem_map_of_mem hp)) (Nat.le_of_succ_le_succ hd)
  | object h hm hb ih =>
    rw [depth] at hd
    obtain ⟨levels, rfl⟩ : ∃ n, levels = n + 1 := ⟨levels - 1, by omega⟩
    refine reads_object (fun m hm' => ih m hm' ?_) hm hb
    have hmem := List.mem_map_of_mem (f := fun m : SpelledMember => (m.name, m.value)) hm'
    exact Nat.le_trans (depth_le_membersDepth hmem) (Nat.le_of_succ_le_succ hd)
  | blanks hb ha h ih =>
    intro fuel rest hf
    obtain ⟨after, hafter, hv⟩ := ih hd fuel (_ ++ rest) (by simp at hf; omega)
    refine ⟨after ++ _, hafter.append ha, ?_⟩
    rw [List.append_assoc, List.append_assoc, List.append_assoc,
      value_congr (skipBlanks_append hb _), hv]

/-- A value is read back from every text that spells it. -/
theorem Spells.parse? {j : Json} {s : String} (h : Spells j s.toList) (hd : j.depth ≤ maxDepth) :
    parse? s = some j := by
  obtain ⟨after, hafter, hv⟩ := h.reads hd (2 * s.toList.length + 2) [] (by omega)
  rw [List.append_nil, List.append_nil] at hv
  rw [Json.parse?, hv]
  exact if_pos (by rw [hafter]; rfl)

/-! ### Printing -/

/-- There are no numbers in a value, and all of it is readable. -/
inductive Plain : Json → Prop
  | null : Plain null
  | bool (b : Bool) : Plain (bool b)
  | string (s : String) : Plain (string s)
  | array {items : List Json} (h : ∀ j ∈ items, Plain j) : Plain (array items)
  | object {members : List (String × Json)} (h : ∀ m ∈ members, Plain m.2) : Plain (object members)

theorem itemsReadable_iff {items : List Json} :
    itemsReadable items = true ↔ ∀ j ∈ items, j.isReadable = true := by
  induction items with
  | nil => simp [itemsReadable]
  | cons j items ih => simp [itemsReadable, ih]

theorem membersReadable_iff {members : List (String × Json)} :
    membersReadable members = true ↔ ∀ m ∈ members, m.2.isReadable = true := by
  induction members with
  | nil => simp [membersReadable]
  | cons m members ih => simp [membersReadable, ih]

theorem compactItems_eq (items : List Json) : compactItems items = items.map compact := by
  induction items with
  | nil => rfl
  | cons j items ih => rw [compactItems, ih, List.map_cons]

theorem compactMembers_eq (members : List (String × Json)) :
    compactMembers members = members.map fun m => quote m.1 ++ ":" ++ m.2.compact := by
  induction members with
  | nil => rfl
  | cons m members ih => rw [compactMembers, ih, List.map_cons]

theorem prettyItems_eq (indent : Nat) (items : List Json) :
    prettyItems indent items = items.map (prettyAt indent) := by
  induction items with
  | nil => rfl
  | cons j items ih => rw [prettyItems, ih, List.map_cons]

theorem prettyMembers_eq (indent : Nat) (members : List (String × Json)) :
    prettyMembers indent members =
      members.map fun m => quote m.1 ++ ": " ++ m.2.prettyAt indent := by
  induction members with
  | nil => rfl
  | cons m members ih => rw [prettyMembers, ih, List.map_cons]

/-- A separator can be written in front of the texts after it. -/
theorem append_intercalate (separator line : List Char) {texts : List (List Char)}
    (hne : texts ≠ []) :
    line ++ (separator ++ line).intercalate texts =
      separator.intercalate (texts.map (line ++ ·)) := by
  induction texts with
  | nil => exact absurd rfl hne
  | cons text texts ih =>
    cases texts with
    | nil => simp
    | cons next texts =>
      simp only [List.map_cons, List.intercalate_cons_cons, List.append_assoc]
      rw [← List.append_assoc line text, ih (List.cons_ne_nil _ _), List.map_cons,
        List.append_assoc]

theorem exists_toList_bracketed (opening closing : String) (indent : Nat) (parts : List String) :
    ∃ blanks, Blank blanks ∧ (bracketed opening closing indent parts).toList =
      opening.toList ++ ([','].intercalate (parts.map fun part =>
        ('\n' :: List.replicate (indent + 2) ' ') ++ part.toList) ++
          (blanks ++ closing.toList)) := by
  cases parts with
  | nil => exact ⟨[], blank_nil, by simp [bracketed]⟩
  | cons part parts =>
    refine ⟨_, blank_line indent, ?_⟩
    have h := append_intercalate [','] ('\n' :: List.replicate (indent + 2) ' ')
      (List.cons_ne_nil part.toList (parts.map String.toList))
    rw [List.map_cons, List.map_map, Function.comp_def] at h
    simp only [bracketed, List.isEmpty_cons, Bool.false_eq_true, ↓reduceIte, String.toList_append,
      String.toList_intercalate, String.toList_ofList, List.map_cons, List.append_assoc]
    rw [← h]
    simp

namespace Plain

variable {j : Json}

theorem isReadable (h : Plain j) : j.isReadable = true := by
  induction h with
  | null | bool | string => rfl
  | array h ih => exact itemsReadable_iff.2 ih
  | object h ih => exact membersReadable_iff.2 ih

theorem spells_bool (b : Bool) :
    Spells (.bool b) (if b then "true" else "false" : String).toList := by
  cases b with
  | false => exact .false
  | true => exact .true

/-- The text without blanks spells the value. -/
theorem spells_compact (h : Plain j) : Spells j j.compact.toList := by
  induction h with
  | null => exact .null
  | bool b => exact spells_bool b
  | string s => exact .string s
  | @array items h ih =>
    have hs := @Spells.array (items.map fun j => (j, j.compact.toList)) []
      (List.forall_mem_map.2 ih) blank_nil
    simpa [compact, compactItems_eq, Function.comp_def] using hs
  | @object members h ih =>
    have hs := @Spells.object (members.map fun m => ⟨[], m.1, [], m.2, m.2.compact.toList⟩) []
      (List.forall_mem_map.2 ih) (List.forall_mem_map.2 fun _ _ => ⟨blank_nil, blank_nil⟩) blank_nil
    simpa [compact, compactMembers_eq, SpelledMember.toText, Function.comp_def] using hs

/-- The indented text spells the value. -/
theorem spells_prettyAt (h : Plain j) (indent : Nat) : Spells j (j.prettyAt indent).toList := by
  induction h generalizing indent with
  | null => exact .null
  | bool b => exact spells_bool b
  | string s => exact .string s
  | @array items h ih =>
    obtain ⟨blanks, hb, htext⟩ :=
      exists_toList_bracketed "[" "]" indent (prettyItems (indent + 2) items)
    have hs := @Spells.array (items.map fun j =>
        (j, ('\n' :: List.replicate (indent + 2) ' ') ++ (j.prettyAt (indent + 2)).toList)) blanks
      (List.forall_mem_map.2 fun j hj => (ih j hj _).after (blank_line _)) hb
    rw [prettyAt, htext, prettyItems_eq, List.map_map]
    simpa [Function.comp_def] using hs
  | @object members h ih =>
    obtain ⟨blanks, hb, htext⟩ :=
      exists_toList_bracketed "\x7b" "\x7d" indent (prettyMembers (indent + 2) members)
    have hs := @Spells.object (members.map fun m => ⟨'\n' :: List.replicate (indent + 2) ' ', m.1,
        [], m.2, [' '] ++ (m.2.prettyAt (indent + 2)).toList⟩) blanks
      (List.forall_mem_map.2 fun m hm => (ih m hm _).after blank_space)
      (List.forall_mem_map.2 fun _ _ => ⟨blank_line _, blank_nil⟩) hb
    rw [prettyAt, htext, prettyMembers_eq, List.map_map]
    simpa [SpelledMember.toText, Function.comp_def] using hs

theorem parse?_compact (h : Plain j) (hd : j.depth ≤ maxDepth) : parse? j.compact = some j :=
  h.spells_compact.parse? hd

theorem parse?_pretty (h : Plain j) (hd : j.depth ≤ maxDepth) : parse? j.pretty = some j :=
  (h.spells_prettyAt 0).parse? hd

end Plain

end Json

end ComponentAbi
