import ComponentAbi.Plan.Basic
import Mathlib.Data.List.Nodup
import Mathlib.Data.List.Perm.Basic

/-!
# Where temporaries are defined and read

What an instruction defines and reads itself is apart from what its bodies do: the body of a list
instruction and the arms of a sum are each a `Body`, which starts with temporaries of its own and
may yield some of what it has. `definedIn` and `usedIn` are all that some instructions define and
read, in bodies however deep.

`Scoped scope code` says that every temporary is read after it is defined, in the same body or one
around it, where the temporaries of `scope` are defined from the start. If moreover no temporary is
defined twice, what a body defines is read nowhere else, except that the instruction it belongs to
takes what it yields (`Scoped.inside`).
-/

namespace ComponentAbi

/-- Some instructions that start with temporaries of their own. -/
structure Body where
  /-- The temporaries that are defined from the start. -/
  binds : List Local
  /-- The instructions. -/
  code : List Instruction
  /-- The temporaries that are read at the end. -/
  yields : List Local := []

/-- The body of an arm. -/
def Arm.toBody (arm : Arm) : Body :=
  ⟨arm.payload.toList, arm.body, arm.yields⟩

namespace Instruction

/-- The temporaries that an instruction defines for those after it. -/
def results : Instruction → List Local
  | arg _ dst | const _ _ dst | lower _ _ dst | lift _ _ dst | bitcast _ _ dst
  | construct _ _ dst | stringLift _ _ dst | listLift _ _ _ _ _ _ _ dst | variantLift _ _ _ dst
  | load _ _ _ dst | alloc _ _ dst => [dst]
  | stringLower _ ptr len | listLower _ _ _ ptr len _ _ _ => [ptr, len]
  | destructure _ _ fields => fields
  | variantLower _ _ results _ | callCore _ _ _ results | callNative _ _ results => results
  | matchCase .. | switch .. | store .. | free .. | freeString .. | freeList .. | finish _ => []

/-- The temporaries that an instruction reads itself. -/
def reads : Instruction → List Local
  | arg .. | const .. | alloc .. => []
  | lower _ src _ | lift _ src _ | bitcast _ src _ | destructure _ src _ | stringLower src _ _
  | listLower _ _ src _ _ _ _ _ | variantLower _ src _ _ | matchCase _ src _ => [src]
  | stringLift ptr len _ | listLift _ _ ptr len _ _ _ _ | freeString ptr len
  | freeList _ _ ptr len _ _ => [ptr, len]
  | variantLift _ discriminant _ _ | switch discriminant _ => [discriminant]
  | load _ base _ _ => [base]
  | store _ src base _ => [src, base]
  | free ptr _ _ => [ptr]
  | construct _ fields _ => fields
  | callCore _ _ args _ | callNative _ args _ => args
  | finish values => values

/-- The bodies of an instruction. The body that lifts the items of a list yields the item. -/
def bodies : Instruction → List Body
  | listLower _ _ _ _ _ item addr body => [⟨[item, addr], body, []⟩]
  | listLift _ _ _ _ addr body item _ => [⟨[addr], body, [item]⟩]
  | freeList _ _ _ _ addr body => [⟨[addr], body, []⟩]
  | variantLower _ _ _ arms | variantLift _ _ arms _ | matchCase _ _ arms | switch _ arms =>
    arms.map Arm.toBody
  | _ => []

/-- All temporaries that an instruction defines outside of the instructions in its bodies. -/
def defs (i : Instruction) : List Local :=
  i.results ++ i.bodies.flatMap Body.binds

/-- All temporaries that an instruction reads outside of the instructions in its bodies. -/
def uses (i : Instruction) : List Local :=
  i.reads ++ i.bodies.flatMap Body.yields

end Instruction

/-- All temporaries that some instructions define, those in their bodies included. -/
def definedIn (code : List Instruction) : List Local :=
  (Instruction.allNested code).flatMap Instruction.defs

/-- All temporaries that some instructions read, those in their bodies included. -/
def usedIn (code : List Instruction) : List Local :=
  (Instruction.allNested code).flatMap Instruction.uses

namespace Body

/-- All temporaries that are defined for a body or in it. -/
def definitions (b : Body) : List Local :=
  b.binds ++ definedIn b.code

/-- All temporaries that are read in a body, and what it yields. -/
def uses (b : Body) : List Local :=
  usedIn b.code ++ b.yields

end Body

/-! ### One instruction after the other -/

namespace Instruction

theorem armsNested_eq (arms : List Arm) :
    armsNested arms = (arms.map Arm.toBody).flatMap fun b => allNested b.code := by
  induction arms with
  | nil => rfl
  | cons arm arms ih => exact congrArg (allNested arm.body ++ ·) ih

theorem withNested_eq (i : Instruction) :
    i.withNested = i :: i.bodies.flatMap fun b => allNested b.code := by
  cases i <;>
    simp [withNested, bodies, armsNested_eq]

theorem allNested_append (code more : List Instruction) :
    allNested (code ++ more) = allNested code ++ allNested more := by
  induction code with
  | nil => rfl
  | cons i code ih =>
    rw [List.cons_append, allNested, allNested, ih, List.append_assoc]

end Instruction

open Instruction

section Lists

variable {i : Instruction} {code more : List Instruction}

@[simp] theorem definedIn_nil : definedIn [] = [] :=
  rfl

theorem definedIn_append (code more : List Instruction) :
    definedIn (code ++ more) = definedIn code ++ definedIn more := by
  rw [definedIn, allNested_append, List.flatMap_append]
  rfl

theorem definedIn_cons (i : Instruction) (code : List Instruction) :
    (definedIn (i :: code)).Perm
      (i.results ++ i.bodies.flatMap Body.definitions ++ definedIn code) := by
  have hbodies := List.flatMap_append_perm i.bodies Body.binds fun b => definedIn b.code
  rw [definedIn, allNested, withNested_eq, List.flatMap_append, List.flatMap_cons,
    List.flatMap_assoc, defs, List.append_assoc i.results]
  exact (hbodies.append_left i.results).append_right (definedIn code)

theorem definedIn_singleton (h : i.bodies = []) : definedIn [i] = i.results := by
  rw [definedIn, allNested, allNested, withNested_eq, h]
  simp [defs, h]

theorem usedIn_cons (i : Instruction) (code : List Instruction) :
    (usedIn (i :: code)).Perm
      (i.reads ++ i.bodies.flatMap Body.uses ++ usedIn code) := by
  have hbodies := List.flatMap_append_perm i.bodies (fun b => usedIn b.code) Body.yields
  rw [usedIn, allNested, withNested_eq, List.flatMap_append, List.flatMap_cons,
    List.flatMap_assoc, Instruction.uses, List.append_assoc i.reads]
  exact ((List.perm_append_comm.trans hbodies).append_left i.reads).append_right (usedIn code)

theorem results_subset_definedIn (code : List Instruction) :
    code.flatMap results ⊆ definedIn code := by
  induction code with
  | nil => exact List.nil_subset _
  | cons i code ih =>
    refine List.Subset.trans ?_ (definedIn_cons i code).symm.subset
    rw [List.flatMap_cons, List.append_assoc]
    refine List.append_subset.2 ⟨List.subset_append_left _ _, ?_⟩
    exact List.Subset.trans ih (List.subset_append_of_subset_right _ (List.subset_append_right _ _))

end Lists

/-! ### Scopes -/

/-- Every temporary is read where it is in scope, with those of `scope` defined from the start. What
a body yields may be what it starts with or what its own instructions define. -/
inductive Scoped : List Local → List Instruction → Prop
  | nil (scope : List Local) : Scoped scope []
  | cons {scope : List Local} {i : Instruction} {code : List Instruction}
    (reads : i.reads ⊆ scope)
    (bodies : ∀ b ∈ i.bodies, Scoped (b.binds ++ scope) b.code)
    (yields : ∀ b ∈ i.bodies, b.yields ⊆ b.code.flatMap results ++ (b.binds ++ scope))
    (rest : Scoped (i.results ++ scope) code) : Scoped scope (i :: code)

namespace Body

/-- A body reads what is in scope around it, what it starts with and what it defines. -/
structure WellScoped (scope : List Local) (b : Body) : Prop where
  /-- The instructions are in scope. -/
  code : Scoped (b.binds ++ scope) b.code
  /-- What is yielded is in scope at the end. -/
  yields : b.yields ⊆ b.code.flatMap results ++ (b.binds ++ scope)

end Body

variable {scope : List Local} {i : Instruction} {code more : List Instruction} {b b' : Body}
  {bs : List Body}

theorem Scoped.of_cons (h : Scoped scope (i :: code)) :
    i.reads ⊆ scope ∧ (∀ b ∈ i.bodies, b.WellScoped scope) ∧ Scoped (i.results ++ scope) code := by
  cases h with
  | cons reads bodies yields rest => exact ⟨reads, fun b hb => ⟨bodies b hb, yields b hb⟩, rest⟩

/-- What a body reads is in scope if what its instructions read is. -/
theorem Body.uses_subset (hcode : usedIn b.code ⊆ definedIn b.code ++ (b.binds ++ scope))
    (hyields : b.yields ⊆ b.code.flatMap results ++ (b.binds ++ scope)) :
    b.uses ⊆ b.definitions ++ scope := by
  have hperm : (definedIn b.code ++ (b.binds ++ scope)).Perm (b.definitions ++ scope) := by
    rw [← List.append_assoc]
    exact List.perm_append_comm.append_right scope
  have hresults : b.code.flatMap results ++ (b.binds ++ scope) ⊆
      definedIn b.code ++ (b.binds ++ scope) :=
    List.append_subset.2 ⟨List.subset_append_of_subset_left _ (results_subset_definedIn b.code),
      List.subset_append_right _ _⟩
  exact List.append_subset.2
    ⟨List.Subset.trans hcode hperm.subset,
      List.Subset.trans (List.Subset.trans hyields hresults) hperm.subset⟩

theorem flatMap_uses_subset (h : ∀ b ∈ bs, b.uses ⊆ b.definitions ++ scope) :
    bs.flatMap Body.uses ⊆ bs.flatMap Body.definitions ++ scope := by
  intro l hl
  obtain ⟨b, hb, hl⟩ := List.mem_flatMap.1 hl
  refine (List.mem_append.1 (h b hb hl)).elim (fun hl => ?_) (List.mem_append_right _)
  exact List.mem_append_left _ (List.mem_flatMap.2 ⟨b, hb, hl⟩)

/-- Nothing is read but what is defined somewhere or in scope from the start. -/
theorem Scoped.usedIn_subset (h : Scoped scope code) : usedIn code ⊆ definedIn code ++ scope := by
  induction h with
  | nil scope => exact List.nil_subset _
  | @cons scope i code reads _ yields rest ihb ih =>
    have hbodies := flatMap_uses_subset fun b hb => Body.uses_subset (ihb b hb) (yields b hb)
    intro l hl
    have hdef : l ∈ definedIn (i :: code) ↔
        (l ∈ i.results ∨ l ∈ i.bodies.flatMap Body.definitions) ∨ l ∈ definedIn code := by
      rw [(definedIn_cons i code).mem_iff, List.mem_append, List.mem_append]
    have huse : (l ∈ i.reads ∨ l ∈ i.bodies.flatMap Body.uses) ∨ l ∈ usedIn code := by
      rwa [(usedIn_cons i code).mem_iff, List.mem_append, List.mem_append] at hl
    rw [List.mem_append, hdef]
    obtain (hl | hl) | hl := huse
    · exact .inr (reads hl)
    · exact (List.mem_append.1 (hbodies hl)).imp_left fun hl => .inl (.inr hl)
    · obtain hl | hl := List.mem_append.1 (ih hl)
      · exact .inl (.inr hl)
      · exact (List.mem_append.1 hl).imp_left fun hl => .inl (.inl hl)

theorem Body.WellScoped.uses_subset (h : b.WellScoped scope) : b.uses ⊆ b.definitions ++ scope :=
  Body.uses_subset h.code.usedIn_subset h.yields

/-! ### What is defined in a body is read there -/

/-- Among the temporaries `used`, those of the body are only where the body has them. -/
def Body.ConfinedIn (b : Body) (used : List Local) : Prop :=
  ∃ others, used.Perm (b.uses ++ others) ∧ b.definitions.Disjoint others

theorem Body.confinedIn_uses (b : Body) : b.ConfinedIn b.uses :=
  ⟨[], by rw [List.append_nil], List.disjoint_nil_right _⟩

theorem Body.ConfinedIn.append {used more : List Local} (h : b.ConfinedIn used)
    (hd : b.definitions.Disjoint more) : b.ConfinedIn (used ++ more) := by
  obtain ⟨others, hperm, hothers⟩ := h
  refine ⟨others ++ more, ?_, List.disjoint_append_right.2 ⟨hothers, hd⟩⟩
  rw [← List.append_assoc]
  exact hperm.append_right more

theorem Body.ConfinedIn.perm {used used' : List Local} (h : b.ConfinedIn used)
    (hp : used'.Perm used) : b.ConfinedIn used' := by
  obtain ⟨others, hperm, hothers⟩ := h
  exact ⟨others, hp.trans hperm, hothers⟩

theorem Body.ConfinedIn.uses_subset {used : List Local} (h : b.ConfinedIn used) :
    b.uses ⊆ used := by
  obtain ⟨others, hperm, -⟩ := h
  exact fun l hl => hperm.mem_iff.2 (List.mem_append_left _ hl)

/-- Next to bodies that define other temporaries. -/
theorem Body.ConfinedIn.flatMap (h : b.ConfinedIn b'.uses) (hsub : b.definitions ⊆ b'.definitions)
    (hb' : b' ∈ bs) (hn : (bs.flatMap Body.definitions).Nodup)
    (hs : (bs.flatMap Body.definitions).Disjoint scope)
    (huses : ∀ b ∈ bs, b.uses ⊆ b.definitions ++ scope) :
    b.ConfinedIn (bs.flatMap Body.uses) := by
  obtain ⟨before, after, rfl⟩ := List.append_of_mem hb'
  have hperm : ((before ++ b' :: after).flatMap Body.uses).Perm
      (b'.uses ++ (before ++ after).flatMap Body.uses) := by
    rw [← List.flatMap_cons]
    exact List.perm_middle.flatMap_right _
  have hdefs : ((before ++ b' :: after).flatMap Body.definitions).Perm
      (b'.definitions ++ (before ++ after).flatMap Body.definitions) := by
    rw [← List.flatMap_cons]
    exact List.perm_middle.flatMap_right _
  refine (h.append fun l hl hother => ?_).perm hperm
  -- The other bodies read what they define themselves or what is in scope, and this one defines
  -- neither.
  have hothers := flatMap_uses_subset fun b hb => huses b (by
    obtain hb | hb := List.mem_append.1 hb
    · exact List.mem_append_left _ hb
    · exact List.mem_append_right _ (List.mem_cons_of_mem _ hb))
  obtain hl' | hl' := List.mem_append.1 (hothers hother)
  · exact List.disjoint_of_nodup_append (hdefs.nodup_iff.1 hn) (hsub hl) hl'
  · exact hs (hdefs.mem_iff.2 (List.mem_append_left _ (hsub hl))) hl'

/-- No temporary is defined twice, with those of `scope` defined from the start. -/
structure Distinct (scope : List Local) (code : List Instruction) : Prop where
  /-- No temporary is defined twice by the instructions. -/
  nodup : (definedIn code).Nodup
  /-- None of those from the start is defined again. -/
  apart : (definedIn code).Disjoint scope

/-- What bodies define apart from what comes after them. -/
theorem Distinct.of_cons (h : Distinct scope (i :: code)) :
    (i.bodies.flatMap Body.definitions).Nodup ∧ Distinct (i.results ++ scope) code ∧
      (i.bodies.flatMap Body.definitions).Disjoint (definedIn code ++ (i.results ++ scope)) := by
  have hdefs := definedIn_cons i code
  have hs : (i.results ++ i.bodies.flatMap Body.definitions ++ definedIn code).Disjoint scope :=
    fun l hl => h.apart (hdefs.mem_iff.2 hl)
  obtain ⟨hhead, hcode, hrest⟩ := List.nodup_append'.1 (hdefs.nodup_iff.1 h.nodup)
  obtain ⟨-, hbodies, hresults⟩ := List.nodup_append'.1 hhead
  obtain ⟨hhs, hcs⟩ := List.disjoint_append_left.1 hs
  obtain ⟨-, hbs⟩ := List.disjoint_append_left.1 hhs
  obtain ⟨hrc, hbc⟩ := List.disjoint_append_left.1 hrest
  exact ⟨hbodies, ⟨hcode, List.disjoint_append_right.2 ⟨List.disjoint_symm hrc, hcs⟩⟩,
    List.disjoint_append_right.2
      ⟨hbc, List.disjoint_append_right.2 ⟨List.disjoint_symm hresults, hbs⟩⟩⟩

theorem Distinct.of_mem_bodies (h : Distinct scope (i :: code)) (hb : b ∈ i.bodies) :
    Distinct (b.binds ++ scope) b.code := by
  obtain ⟨hn, -, hout⟩ := h.of_cons
  obtain ⟨-, hcode, hbinds⟩ := List.nodup_append'.1 ((List.nodup_flatMap.1 hn).1 b hb)
  refine ⟨hcode, List.disjoint_append_right.2 ⟨List.disjoint_symm hbinds, fun l hl hs => ?_⟩⟩
  exact hout (List.mem_flatMap.2 ⟨b, hb, List.mem_append_right _ hl⟩)
    (List.mem_append_right _ (List.mem_append_right _ hs))

/-- What a body inside of some instructions defines is read nowhere else in them, and is not what
they define for those after them. -/
structure Body.Inside (b : Body) (code : List Instruction) : Prop where
  /-- It is read in the body, and as its yields. -/
  confined : b.ConfinedIn (usedIn code)
  /-- It is defined by the instructions. -/
  defined : b.definitions ⊆ definedIn code
  /-- It is out of scope after them. -/
  apart : b.definitions.Disjoint (code.flatMap results)

/-- In a body of the first instruction. -/
theorem Body.ConfinedIn.inside_bodies (h : Scoped scope (i :: code))
    (hd : Distinct scope (i :: code)) (hb' : b' ∈ i.bodies) (hc : b.ConfinedIn b'.uses)
    (hsub : b.definitions ⊆ b'.definitions) : b.Inside (i :: code) := by
  obtain ⟨reads, bodies, rest⟩ := h.of_cons
  obtain ⟨hn, -, hout⟩ := hd.of_cons
  have hB : b.definitions ⊆ i.bodies.flatMap Body.definitions := fun l hl =>
    List.mem_flatMap.2 ⟨b', hb', hsub hl⟩
  have hout' : b.definitions.Disjoint (definedIn code ++ (i.results ++ scope)) :=
    List.disjoint_of_subset_left hB hout
  obtain ⟨hcode, hhead⟩ := List.disjoint_append_right.1 hout'
  obtain ⟨hresults, hscope⟩ := List.disjoint_append_right.1 hhead
  have hbodies : (i.bodies.flatMap Body.definitions).Disjoint scope := fun l hl hs =>
    hout hl (List.mem_append_right _ (List.mem_append_right _ hs))
  have huses : b.ConfinedIn (i.bodies.flatMap Body.uses) :=
    hc.flatMap hsub hb' hn hbodies fun b hb => (bodies b hb).uses_subset
  refine ⟨?_, fun l hl => (definedIn_cons i code).mem_iff.2 ?_, ?_⟩
  · refine ((huses.append fun l hl hr => hscope hl (reads hr)).append fun l hl hu =>
      hout' hl (rest.usedIn_subset hu)).perm ?_
    exact (usedIn_cons i code).trans (List.perm_append_comm.append_right _)
  · exact List.mem_append_left _ (List.mem_append_right _ (hB hl))
  · rw [List.flatMap_cons]
    exact List.disjoint_append_right.2 ⟨hresults,
      List.disjoint_of_subset_right (results_subset_definedIn code) hcode⟩

/-- After the first instruction. -/
theorem Body.Inside.cons (h : Scoped scope (i :: code)) (hd : Distinct scope (i :: code))
    (hb : b.Inside code) : b.Inside (i :: code) := by
  obtain ⟨reads, bodies, rest⟩ := h.of_cons
  obtain ⟨-, hcode, hout⟩ := hd.of_cons
  have hhead : b.definitions.Disjoint (i.results ++ scope) :=
    List.disjoint_of_subset_left hb.defined hcode.apart
  obtain ⟨hresults, hscope⟩ := List.disjoint_append_right.1 hhead
  have hreads : b.definitions.Disjoint i.reads := List.disjoint_of_subset_right reads hscope
  have huses : b.definitions.Disjoint (i.bodies.flatMap Body.uses) := by
    intro l hl hu
    have hbodies := flatMap_uses_subset fun b hb => (bodies b hb).uses_subset
    obtain hu | hu := List.mem_append.1 (hbodies hu)
    · exact hout hu (List.mem_append_left _ (hb.defined hl))
    · exact hscope hl hu
  refine ⟨?_, fun l hl => (definedIn_cons i code).mem_iff.2 ?_, ?_⟩
  · exact (hb.confined.append (List.disjoint_append_right.2 ⟨hreads, huses⟩)).perm
      ((usedIn_cons i code).trans List.perm_append_comm)
  · exact List.mem_append_right _ (hb.defined hl)
  · rw [List.flatMap_cons]
    exact List.disjoint_append_right.2 ⟨hresults, hb.apart⟩

/-- What the bodies of an instruction define is read in them and as their yields only, if no
temporary is defined twice. -/
theorem Scoped.inside (h : Scoped scope code) (hd : Distinct scope code)
    (hi : i ∈ allNested code) (hb : b ∈ i.bodies) : b.Inside code := by
  induction h with
  | nil scope => cases hi
  | @cons scope i' code reads bodies yields rest ihb ih =>
    have h : Scoped scope (i' :: code) := .cons reads bodies yields rest
    rw [allNested, withNested_eq, List.mem_append, List.mem_cons, List.mem_flatMap] at hi
    -- The instruction is the first one, or in a body of it, or after it.
    obtain (rfl | ⟨b', hb', hi⟩) | hi := hi
    · exact b.confinedIn_uses.inside_bodies h hd hb (List.Subset.refl _)
    · have hd' := hd.of_mem_bodies hb'
      have hin := ihb b' hb' hd' hi
      refine Body.ConfinedIn.inside_bodies h hd hb' (hin.confined.append fun l hl hy => ?_)
        (List.subset_append_of_subset_right _ hin.defined)
      obtain hy | hy := List.mem_append.1 (yields b' hb' hy)
      · exact hin.apart hl hy
      · exact hd'.apart (hin.defined hl) hy
    · exact (ih hd.of_cons.2.1 hi).cons h hd

end ComponentAbi
