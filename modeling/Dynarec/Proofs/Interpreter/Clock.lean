import Dynarec.Proofs.Interpreter.Steps

/-!
# The clock

How an instruction moves the clock and what it tells the handlers it calls. An instruction counts
its base cycles first, then the extra cycles of a conditional branch that is taken
(`takenCycles`), and only then turns to memory: all its demands carry the clock count with which it
ends (`accounts_step`). What the execution context holds afterwards is the clock count of the last
call (`Machine.lastCycles`).

`execution` lists the instructions of a block that are executed, each with the state in which it
starts. Over a block the clock advances by their base cycles and the extra cycles of the last one,
since a conditional branch that is taken leaves the block (`cycles_runBlock`).
-/

namespace Dynarec

open Bridge (MemoryInterface)
open Guest (ExitReason Operand8 Operation Placed)
open Machine (Event)

variable {σ : Type}

/-! ### What handlers are told -/

namespace Machine

/-- The clock count that a handler is told. -/
def Event.cycles? : Event → Option HostWord
  | .call _ cycles => some cycles
  | .direct .. => none

/-- The clock count that came with the **last call** of a handler, or `start` if none was called. -/
def lastCycles (start : HostWord) (events : List Event) : HostWord :=
  (events.filterMap Event.cycles?).getLastD start

@[simp]
theorem lastCycles_nil (start : HostWord) : lastCycles start [] = start := rfl

/-- A direct access tells no handler what time it is. -/
@[simp]
theorem lastCycles_direct (start : HostWord) (access : Codegen.Access) (stack : Bool)
    (a : Address) : lastCycles start [.direct access stack a] = start := rfl

/-- A call tells the handler its clock count. -/
@[simp]
theorem lastCycles_call (start : HostWord) (request : Bridge.Request) (cycles : HostWord) :
    lastCycles start [.call request cycles] = cycles := rfl

/-- After events one after another, the last call is that of the later ones, if they have any. -/
theorem lastCycles_append (start : HostWord) (es fs : List Event) :
    lastCycles start (es ++ fs) = lastCycles (lastCycles start es) fs := by
  simp only [lastCycles, List.filterMap_append, List.getLastD_eq_getLast?, List.getLast?_append,
    Option.getD_or]

end Machine

namespace Interpreter

open Machine (lastCycles lastCycles_append)

/-! ### Operations -/

/-- The **extra cycles** of a conditional branch that is taken. -/
def takenCycles (operation : Operation) (s : State σ) : Nat :=
  match operation with
  | .jump (some condition) _ | .jumpRelative (some condition) _ | .call (some condition) _
  | .ret (some condition) =>
    if condition.holds s.zero s.carry then operation.cycles.branchTaken else 0
  | _ => 0

/-- Whether demands lead from one state to another **while the clock stands still**: all of them
carry its count, and so does the execution context if a handler has been called. -/
structure Accounts (s : State σ) (demands : List (Demand × HostWord)) (t : State σ) : Prop where
  cycles : t.cycles = s.cycles
  told : ∀ d ∈ demands, d.2 = s.cycles
  contextCycles : t.contextCycles = lastCycles s.contextCycles (demandEvents demands)

namespace Accounts

variable {s t u : State σ} {ds es : List (Demand × HostWord)}

/-- What does not touch memory demands nothing, and leaves the execution context alone. -/
theorem quiet (hcycles : t.cycles = s.cycles) (hcontext : t.contextCycles = s.contextCycles) :
    Accounts s [] t := ⟨hcycles, nofun, hcontext⟩

/-- Demands one after another are accounted for one after another: the clock stands still in both,
and the context holds the count of the last call. -/
theorem append (h : Accounts s ds t) (h' : Accounts t es u) : Accounts s (ds ++ es) u where
  cycles := h'.cycles.trans h.cycles
  told d hd := by
    rcases List.mem_append.mp hd with hd | hd
    · exact h.told d hd
    · exact (h'.told d hd).trans h.cycles
  contextCycles := by
    rw [h'.contextCycles, h.contextCycles, demandEvents_append, lastCycles_append]

/-- Registers and flags may change on top. -/
theorem keep (h : Accounts s ds t) (hcycles : u.cycles = t.cycles)
    (hcontext : u.contextCycles = t.contextCycles) : Accounts s ds u :=
  ⟨hcycles.trans h.cycles, h.told, hcontext.trans h.contextCycles⟩

/-- One demand, met in the window or by a handler. Only a handler is told the clock count, by the
execution context. -/
theorem single {d : Demand} (hcycles : t.cycles = s.cycles)
    (hdirect : d.isDirect = true → t.contextCycles = s.contextCycles)
    (hcall : d.isDirect = false → t.contextCycles = s.cycles) : Accounts s [(d, s.cycles)] t where
  cycles := hcycles
  told := by simp
  contextCycles := by
    change t.contextCycles = lastCycles s.contextCycles [d.event s.cycles]
    cases hd : d.isDirect with
    | true =>
      obtain ⟨access, stack, a, haccess⟩ := Demand.exists_access_of_isDirect hd
      rw [Demand.event_of_isDirect hd haccess, hdirect hd, Machine.lastCycles_direct]
    | false => rw [Demand.event_of_not_isDirect hd, hcall hd, Machine.lastCycles_call]

/-- A demand that is dispatched by its address: the context changes on the side of the handler
only. -/
theorem dispatched {d : Demand} {P : Prop} [Decidable P] (hdirect : d.isDirect = decide P)
    (hcycles : t.cycles = s.cycles) (hcontext : t.contextCycles = s.contextCycles)
    (hcycles' : u.cycles = s.cycles) (hcontext' : u.contextCycles = s.cycles) :
    Accounts s [(d, s.cycles)] (if P then t else u) := by
  by_cases hP : P
  · rw [if_pos hP]
    rw [decide_eq_true hP] at hdirect
    exact .single hcycles (fun _ => hcontext) fun hd => nomatch hd.symm.trans hdirect
  · rw [if_neg hP]
    rw [decide_eq_false hP] at hdirect
    exact .single hcycles' (fun hd => nomatch hd.symm.trans hdirect) fun _ => hcontext'

end Accounts

variable {i : MemoryInterface σ}

/-- Reading a byte demands it at the clock count of the state. -/
theorem accounts_read8 (s : State σ) (a : Address) :
    Accounts s [(.read a, s.cycles)] (s.read8 i a).2 := by
  rw [State.read8, apply_ite Prod.snd]
  exact .dispatched rfl rfl rfl rfl rfl

/-- Writing a byte demands it at the clock count of the state. -/
theorem accounts_write8 (s : State σ) (a : Address) (v : Byte) :
    Accounts s [(.write a v, s.cycles)] (s.write8 i a v) :=
  .dispatched rfl rfl rfl rfl rfl

/-- Writing a word is one demand, not two. -/
theorem accounts_write16 (s : State σ) (a : Address) (v : BitVec 16) :
    Accounts s [(.writeWord a v, s.cycles)] (s.write16 i a v) :=
  .dispatched rfl rfl rfl rfl rfl

/-- A change of the interrupt state is demanded of a handler, always. -/
theorem accounts_setInterrupts (s : State σ) (enabled : Bool) :
    Accounts s [(.interrupts enabled, s.cycles)] (s.setInterrupts i enabled) :=
  .single rfl (fun hd => nomatch hd) fun _ => rfl

/-- A push demands its word at SP as it is before. -/
theorem accounts_push (s : State σ) (v : BitVec 16) :
    Accounts s [(.push s.sp v, s.cycles)] (s.push i v) :=
  .dispatched rfl rfl rfl rfl rfl

/-- A pop demands its word at SP as it is before. -/
theorem accounts_pop (s : State σ) : Accounts s [(.pop s.sp, s.cycles)] (s.pop i).2 := by
  rw [State.pop, apply_ite Prod.snd]
  exact .dispatched rfl rfl rfl rfl rfl

/-! ### Operands -/

/-- A pointer that moves after an access demands nothing more. -/
theorem accounts_afterAccess {s t : State σ} {ds : List (Demand × HostWord)} (h : Accounts s ds t)
    (o : Operand8) : Accounts s ds (afterAccess t o) := by
  cases o with
  | indirectHlIncrement | indirectHlDecrement => exact h.keep rfl rfl
  | _ => exact h

/-- Reading an operand demands what the operand demands: nothing of memory, if it is a register. -/
theorem accounts_readOperand (s : State σ) (o : Operand8) :
    Accounts s (readDemands s o) (readOperand i s o).2 := by
  cases hmemory : o.isMemory with
  | true =>
    rw [readDemands, if_pos hmemory, readOperand_of_isMemory s hmemory]
    exact accounts_afterAccess (accounts_read8 s _) o
  | false =>
    rw [readDemands, hmemory, readOperand_of_not_isMemory s hmemory]
    exact .quiet rfl rfl

/-- Writing an operand demands what the operand demands. -/
theorem accounts_writeOperand (s : State σ) (v : Byte) (o : Operand8) :
    Accounts s (writeDemands s v o) (writeOperand i s v o) := by
  cases hmemory : o.isMemory with
  | true =>
    rw [writeDemands, if_pos hmemory, writeOperand_of_isMemory s v hmemory]
    exact accounts_afterAccess (accounts_write8 s _ v) o
  | false =>
    rw [writeDemands, hmemory]
    cases o with
    | register r => cases r <;> exact .quiet rfl rfl
    | immediate w => exact .quiet rfl rfl
    | _ => cases hmemory

/-- Reading an operand and writing it back, with a change that does not touch memory. If the operand
is in memory these are two demands, both at the same clock count. -/
theorem accounts_modifyOperand (s : State σ) (o : Operand8)
    {change : State σ → Byte → Byte × State σ}
    (hcycles : ∀ t v, (change t v).2.cycles = t.cycles)
    (hcontext : ∀ t v, (change t v).2.contextCycles = t.contextCycles) :
    Accounts s (modifyDemands i s o change) (modifyOperand i s o change) := by
  have hread := (accounts_readOperand (i := i) s o).keep
    (hcycles (readOperand i s o).2 (readOperand i s o).1) (hcontext _ _)
  exact hread.append (accounts_writeOperand _ _ _)

/-- Operations that change an operand in place are all accounted for by `accounts_modifyOperand`. -/
theorem accounts_of_changeOf (next : Address) (s : State σ) {operation : Operation}
    {target : Operand8} {change : State σ → Byte → Byte × State σ}
    (h : changeOf operation = some (target, change)) :
    Accounts s (performDemands i next operation s) (perform i next operation s).1 := by
  obtain ⟨hperform, hdemands⟩ := perform_of_changeOf i next s h
  rw [hperform, hdemands]
  cases operation with
  | increment | decrement | shift | reset | set =>
    cases h
    exact accounts_modifyOperand s _ (fun _ _ => rfl) fun _ _ => rfl
  | _ => cases h

/-! ### Instructions -/

/-- An operation that counts nothing on top of its base cycles is accounted for by what it does
alone. -/
theorem Accounts.uncharged {s t : State σ} {ds : List (Demand × HostWord)} {operation : Operation}
    (hzero : takenCycles operation s = 0) (h : Accounts s ds t) :
    Accounts (s.addCycles (takenCycles operation s)) ds t := by
  rw [hzero, State.addCycles_zero]
  exact h

/-- An operation under a condition. If it is not taken it does nothing, and if it is taken the extra
cycles are counted before it accesses memory. -/
theorem Accounts.conditional {s t : State σ} {ds : List (Demand × HostWord)} {operation : Operation}
    (condition : Option Guest.Condition)
    (hcycles : takenCycles operation s =
      if taken s condition then operation.cycles.branchTaken else 0)
    (htaken : taken s condition = true → Accounts (s.addCycles operation.cycles.branchTaken) ds t)
    (hnot : taken s condition = false → ds = [] ∧ t = s) :
    Accounts (s.addCycles (takenCycles operation s)) ds t := by
  cases h : taken s condition with
  | true =>
    rw [hcycles, if_pos h]
    exact htaken h
  | false =>
    obtain ⟨rfl, rfl⟩ := hnot h
    rw [hcycles, h]
    exact .quiet (congrArg State.cycles t.addCycles_zero.symm) rfl

/-- **An operation** counts the extra cycles of a branch that is taken, and the clock stands still
while it accesses memory. There is one case for each operation, and those of a kind share a lemma
from above. -/
theorem accounts_perform (next : Address) (operation : Operation) (s : State σ) :
    Accounts (s.addCycles (takenCycles operation s)) (performDemands i next operation s)
      (perform i next operation s).1 := by
  -- only the four branches count anything here, and they do so before they turn to the stack
  cases operation with
  | jump condition | jumpRelative condition =>
    refine .conditional condition (by cases condition <;> rfl) (fun h => ?_) fun h => ⟨rfl, ?_⟩
    · rw [perform, if_pos h]
      exact .quiet rfl rfl
    · rw [perform, h]
      rfl
  | call condition a =>
    refine .conditional condition (by cases condition <;> rfl) (fun h => ?_) fun h => ⟨?_, ?_⟩
    · rw [perform, performDemands_call, if_pos h, if_pos h]
      exact accounts_push _ next
    · rw [performDemands_call, h]
      rfl
    · rw [perform, h]
      rfl
  | ret condition =>
    refine .conditional condition (by cases condition <;> rfl) (fun h => ?_) fun h => ⟨?_, ?_⟩
    · rw [perform, performDemands_ret, if_pos h, if_pos h]
      exact accounts_pop _
    · rw [performDemands_ret, h]
      rfl
    · rw [perform, h]
      rfl
  | di | ei => exact .uncharged rfl (accounts_setInterrupts s _)
  | load dst src =>
    exact .uncharged rfl ((accounts_readOperand s src).append (accounts_writeOperand _ _ dst))
  | storeStackPointer a => exact .uncharged rfl (accounts_write16 s a s.sp)
  | alu op src | bit index src => exact .uncharged rfl ((accounts_readOperand s src).keep rfl rfl)
  | increment target | decrement target | shift op target | reset index target | set index target =>
    exact .uncharged rfl (accounts_of_changeOf next s rfl)
  | retInterrupt => exact .uncharged rfl ((accounts_setInterrupts s true).append (accounts_pop _))
  | restart vector => exact .uncharged rfl (accounts_push s next)
  | push pair => exact .uncharged rfl (accounts_push s _)
  | pop pair =>
    refine .uncharged rfl ((accounts_pop (i := i) s).keep ?_ ?_) <;> cases pair <;> rfl
  | loadImmediate16 pair v | increment16 pair | decrement16 pair =>
    cases pair <;> exact .uncharged rfl (.quiet rfl rfl)
  | _ => exact .uncharged rfl (.quiet rfl rfl)

/-- The clock count with which an instruction **ends**: its base cycles on top of the count with
which it starts, and the extra cycles of a branch that is taken. -/
def endCycles (p : Placed) (s : State σ) : HostWord :=
  s.cycles + BitVec.ofNat 64 (p.instruction.cycles.base + takenCycles p.instruction.operation s)

/-- **An instruction** makes all its demands at the clock count with which it ends: its base cycles
are counted first, and so are the extra ones. -/
theorem accounts_step (p : Placed) (s : State σ) :
    Accounts { s with cycles := endCycles p s } (stepDemands i p s) (step i p s).1 := by
  have hperform := accounts_perform (i := i) p.next p.instruction.operation
    (s.addCycles p.instruction.cycles.base)
  have hcycles : (s.addCycles p.instruction.cycles.base).addCycles
      (takenCycles p.instruction.operation (s.addCycles p.instruction.cycles.base)) =
        { s with cycles := endCycles p s } := by
    rw [endCycles, BitVec.ofNat_add, ← BitVec.add_assoc]
    rfl
  rwa [hcycles] at hperform

/-- A conditional branch that is taken leaves the block, so an instruction after which the block
goes on has counted no extra cycles. -/
theorem takenCycles_of_through {p : Placed} {s t : State σ} (h : step i p s = (t, none)) :
    takenCycles p.instruction.operation s = 0 := by
  have hnone : (perform i p.next p.instruction.operation
      (s.addCycles p.instruction.cycles.base)).2 = none := congrArg (·.2) h
  cases hoperation : p.instruction.operation with
  | jump condition | jumpRelative condition | call condition | ret condition =>
    rw [hoperation] at hnone
    cases condition with
    | none => rfl
    | some condition =>
      refine if_neg fun hholds => ?_
      have htaken : taken (s.addCycles p.instruction.cycles.base) (some condition) = true := hholds
      rw [perform, if_pos htaken] at hnone
      cases hnone
  | _ => rfl

/-! ### Blocks -/

variable (i) in
/-- The instructions of a block that are **executed**, each with the state in which it starts. -/
def execution : List Placed → State σ → List (Placed × State σ)
  | [], _ => []
  | p :: ps, s =>
    (p, s) ::
      match step i p s with
      | (_, some _) => []
      | (t, none) => execution ps t

section First

variable {p : Placed} {ps : List Placed} {s t : State σ}

/-- An instruction that leaves the block is the last one that is executed. -/
theorem execution_left {exit : ExitReason × Address} (h : step i p s = (t, some exit)) :
    execution i (p :: ps) s = [(p, s)] := by
  rw [execution, h]

/-- An instruction after which the block goes on is followed by the execution of the rest. -/
theorem execution_through (h : step i p s = (t, none)) :
    execution i (p :: ps) s = (p, s) :: execution i ps t := by
  rw [execution, h]

end First

/-- The **base cycles** of executed instructions. -/
def baseCycles : List (Placed × State σ) → Nat
  | [] => 0
  | (p, _) :: rest => p.instruction.cycles.base + baseCycles rest

/-- The base cycles of two parts of an execution are added up. -/
theorem baseCycles_append (done rest : List (Placed × State σ)) :
    baseCycles (done ++ rest) = baseCycles done + baseCycles rest := by
  induction done with
  | nil => exact (Nat.zero_add _).symm
  | cons first done ih => rw [List.cons_append, baseCycles, baseCycles, ih, Nat.add_assoc]

/-- The extra cycles of the last executed instruction, the only one that may be a conditional branch
that is taken. -/
def exitCycles (executed : List (Placed × State σ)) : Nat :=
  (executed.getLast?.map fun (p, s) => takenCycles p.instruction.operation s).getD 0

/-- The extra cycles of a block are those of its last instruction. -/
theorem exitCycles_cons {p : Placed} {s : State σ} (h : takenCycles p.instruction.operation s = 0)
    (rest : List (Placed × State σ)) : exitCycles ((p, s) :: rest) = exitCycles rest := by
  cases rest with
  | nil => exact h
  | cons q rest => rw [exitCycles, exitCycles, List.getLast?_cons_cons]

/-- The clock after an instruction that stays in the block has counted its base cycles and no
more. -/
theorem cycles_of_through {p : Placed} {s t : State σ} (h : step i p s = (t, none)) :
    t.cycles = s.cycles + BitVec.ofNat 64 p.instruction.cycles.base := by
  have hstep := (accounts_step (i := i) p s).cycles
  rw [h] at hstep
  exact hstep.trans (by rw [endCycles, takenCycles_of_through h, Nat.add_zero])

/-- **The clock over a block** counts the base cycles of the instructions that were executed and the
extra cycles of the one that left. The induction is on the instructions of the block. -/
theorem cycles_runBlock (fallThrough : Address) (ps : List Placed) (s : State σ) :
    (runBlock i fallThrough ps s).1.cycles = s.cycles +
      BitVec.ofNat 64 (baseCycles (execution i ps s) + exitCycles (execution i ps s)) := by
  induction ps generalizing s with
  | nil => exact (BitVec.add_zero s.cycles).symm
  | cons p ps ih =>
    rcases hstep : step i p s with ⟨t, _ | exit⟩
    · rw [runBlock_through hstep, execution_through hstep, ih, cycles_of_through hstep,
        exitCycles_cons (takenCycles_of_through hstep), BitVec.add_assoc, ← BitVec.ofNat_add,
        ← Nat.add_assoc]
      rfl
    · have hcycles := (accounts_step (i := i) p s).cycles
      rw [hstep] at hcycles
      rw [runBlock_left hstep, execution_left hstep]
      exact hcycles

/-- **The clock when an instruction of a block starts** has counted the base cycles of the
instructions before it. -/
theorem cycles_of_execution {ps : List Placed} {s t : State σ} {p : Placed} {k : Nat}
    (h : (execution i ps s)[k]? = some (p, t)) :
    t.cycles = s.cycles + BitVec.ofNat 64 (baseCycles ((execution i ps s).take k)) := by
  induction ps generalizing s k with
  | nil => cases h
  | cons q ps ih =>
    cases k with
    | zero =>
      cases h
      exact (BitVec.add_zero _).symm
    | succ k =>
      rcases hstep : step i q s with ⟨u, _ | exit⟩
      · rw [execution_through hstep] at h ⊢
        rw [ih h, cycles_of_through hstep, BitVec.add_assoc, ← BitVec.ofNat_add]
        rfl
      · rw [execution_left hstep] at h
        cases h

/-- **The clock when an instruction of a block ends** has counted its own cycles, too. -/
theorem endCycles_of_execution {ps : List Placed} {s t : State σ} {p : Placed} {k : Nat}
    (h : (execution i ps s)[k]? = some (p, t)) :
    endCycles p t = s.cycles + BitVec.ofNat 64 (baseCycles ((execution i ps s).take (k + 1)) +
      takenCycles p.instruction.operation t) := by
  obtain ⟨hk, hget⟩ := List.getElem?_eq_some_iff.mp h
  have hbase : baseCycles ((execution i ps s).take (k + 1)) =
      baseCycles ((execution i ps s).take k) + p.instruction.cycles.base := by
    rw [List.take_succ_eq_append_getElem hk, hget, baseCycles_append]
    rfl
  rw [endCycles, cycles_of_execution h, hbase, BitVec.add_assoc, ← BitVec.ofNat_add,
    ← Nat.add_assoc]

/-- **The execution context after a block** holds the clock count of the last call, and is as it was
if there was none. -/
theorem contextCycles_runBlock (fallThrough : Address) (ps : List Placed) (s : State σ) :
    (runBlock i fallThrough ps s).1.contextCycles =
      lastCycles s.contextCycles (demandEvents (blockDemands i ps s)) := by
  induction ps generalizing s with
  | nil => rfl
  | cons p ps ih =>
    have hcontext := (accounts_step (i := i) p s).contextCycles
    rcases hstep : step i p s with ⟨t, _ | exit⟩
    · rw [hstep] at hcontext
      rw [runBlock_through hstep, blockDemands_through hstep, demandEvents_append,
        lastCycles_append, ih, hcontext]
    · rw [hstep] at hcontext
      rw [runBlock_left hstep, blockDemands_left hstep]
      exact hcontext

end Interpreter

end Dynarec
