import ComponentAbi.Proofs.Memory.Run
import ComponentAbi.Proofs.Plan.Generation
import ComponentAbi.Proofs.Plan.Temporaries

/-!
# Running blocks

`Plan.Leads` says where a block of instructions leads: to which temporaries and to which memory. It
is put together along the block (`Plan.Leads.append`), from what its instructions do.
-/

namespace ComponentAbi

namespace Plan

open MemoryM

variable {host : Host} {args : List Word} {env env' env'' : Env} {m m' m'' : Memory} {k k' : Nat}

/-- The block defines some of the first `k` temporaries, beside those that were defined before, and
leads to `env'` and the memory `m'`. -/
structure Leads (host : Host) (args : List Word) (code : List Instruction) (env : Env) (m : Memory)
    (k : Nat) (env' : Env) (m' : Memory) : Prop where
  /-- This is what it does. -/
  run : runOn (execAll host args code env) m = (.ok env', m')
  /-- What was defined keeps what it holds. -/
  keeps : env.Keeps env'
  /-- Nothing else is defined. -/
  below : env'.Below k

/-! ### Blocks -/

theorem execAll_append (code more : List Instruction) (env : Env) :
    execAll host args (code ++ more) env =
      execAll host args code env >>= execAll host args more := by
  induction code generalizing env with
  | nil => rw [List.nil_append, execAll, pure_bind]
  | cons i code ih =>
    rw [List.cons_append, execAll, execAll, bind_assoc]
    exact bind_congr fun env => ih env

theorem Leads.append {code more : List Instruction} (h : Leads host args code env m k env' m')
    (h' : Leads host args more env' m' k' env'' m'') :
    Leads host args (code ++ more) env m k' env'' m'' where
  run := by
    rw [execAll_append, runOn_bind_of_ok h.run]
    exact h'.run
  keeps := h.keeps.trans h'.keeps
  below := h'.below

theorem Leads.cons {i : Instruction} {code : List Instruction}
    (h : Leads host args [i] env m k env' m') (h' : Leads host args code env' m' k' env'' m'') :
    Leads host args (i :: code) env m k' env'' m'' :=
  h.append h'

theorem Leads.mono {code : List Instruction} (h : Leads host args code env m k env' m')
    (hk : k ≤ k') : Leads host args code env m k' env' m' :=
  ⟨h.run, h.keeps, h.below.mono hk⟩

section Texts

variable {ptr len : Local} {start length : Nat} {text : String}

end Texts

/-! ### Lists -/

section Lists

variable {element : String} {layout : Layout} {ptr len addr item dst : Local} {start length : Nat}
  {items : List Native} {body : List Instruction}

end Lists

/-! ### Calls -/

section Arms

variable {arm : Arm} {arms : List Arm} {index first i : Nat} {payload : Option Native}
  {es : List Entry}

theorem core_discriminantWidth (size : Nat) : (discriminantWidth size).core = .i32 := by
  rw [discriminantWidth]
  split <;> rfl

variable {type : String} {src disc : Local}

end Arms

end Plan

end ComponentAbi
