import Dynarec.Interpreter.Run
import Dynarec.Proofs.Machine.Trace

/-!
# What guest instructions ask of memory

A **demand** is an access to guest memory, or a change of the interrupt master enable flag, as the
guest instruction means it: a byte at an address, a word pushed at an SP. `Demand.event` says how it
is met, in the window or by a handler. `blockDemands` lists the demands of a block, each with the
clock count at which it is made.
-/

namespace Dynarec.Interpreter

open Bridge (MemoryInterface)
open Guest (Operand8 Operation Placed)
open Machine (Event)

variable {σ : Type}

/-! ### Demands -/

/-- What an instruction **asks** of guest memory. -/
inductive Demand
  | read (a : Address)
  | write (a : Address) (v : Byte)
  | writeWord (a : Address) (v : BitVec 16)
  /-- A word pushed while SP has the given value. -/
  | push (sp : BitVec 16) (v : BitVec 16)
  /-- A word popped while SP has the given value. -/
  | pop (sp : BitVec 16)
  | interrupts (enabled : Bool)
  deriving DecidableEq

namespace Demand

/-- Whether a demand is met in the window. -/
def isDirect : Demand → Bool
  | read a => decide (a.toNat < 0xFE00)
  | write a _ => decide (0x8000 ≤ a.toNat ∧ a.toNat < 0xFE00)
  | writeWord a _ => decide (0x8000 ≤ a.toNat ∧ a.toNat < 0xFDFF)
  | push sp _ => decide (0xFF80 ≤ sp.toNat)
  | pop sp => decide (0xFF80 ≤ sp.toNat ∧ sp.toNat ≠ 0xFFFF)
  | interrupts _ => false

/-- The request to the handler that **corresponds** to a demand. -/
def request : Demand → Bridge.Request
  | read a => .read8 a
  | write a v => .write8 a v
  | writeWord a v => .write16 a v
  | push sp v => .write16 (sp - 2) v
  | pop sp => .read16 sp
  | interrupts enabled => .interruptMasterEnable enabled

/-- The access to the window that corresponds to a demand, if any does. -/
def access : Demand → Option (Codegen.Access × Bool × Address)
  | read a => some (⟨false, false⟩, false, a)
  | write a _ => some (⟨false, true⟩, false, a)
  | writeWord a _ => some (⟨true, true⟩, false, a)
  | push sp _ => some (⟨true, true⟩, true, sp - 2)
  | pop sp => some (⟨true, false⟩, true, sp)
  | interrupts _ => none

/-- **How a demand is met** at a clock count. -/
def event (d : Demand) (cycles : HostWord) : Event :=
  match d.isDirect, d.access with
  | true, some (access, stack, a) => .direct access stack a
  | _, _ => .call d.request cycles

/-- A demand that is not met in the window is met by the **handler** that corresponds to it. -/
theorem event_of_not_isDirect {d : Demand} (h : d.isDirect = false) (cycles : HostWord) :
    d.event cycles = .call d.request cycles := by
  rw [event, h]

/-- A demand that is met in the window is met by the access that corresponds to it. -/
theorem event_of_isDirect {d : Demand} (h : d.isDirect = true) {access : Codegen.Access}
    {stack : Bool} {a : Address} (ha : d.access = some (access, stack, a)) (cycles : HostWord) :
    d.event cycles = .direct access stack a := by
  rw [event, h, ha]

theorem exists_access_of_isDirect {d : Demand} (h : d.isDirect = true) :
    ∃ access stack a, d.access = some (access, stack, a) := by
  cases d with
  | interrupts enabled => cases h
  | _ => exact ⟨_, _, _, rfl⟩

end Demand

/-! ### Operands -/

/-- Reading a **memory operand** is reading the byte at its address, and then moving HL if the
operand says so. -/
theorem readOperand_of_isMemory {i : MemoryInterface σ} (s : State σ) {o : Operand8}
    (h : o.isMemory = true) :
    readOperand i s o =
      ((s.read8 i (operandAddress s o)).1, afterAccess (s.read8 i (operandAddress s o)).2 o) := by
  cases o with
  | register r => cases h
  | immediate v => cases h
  | _ => rfl

theorem readOperand_of_not_isMemory {i : MemoryInterface σ} (s : State σ) {o : Operand8}
    (h : o.isMemory = false) : (readOperand i s o).2 = s := by
  cases o with
  | register r => rfl
  | immediate v => rfl
  | _ => cases h

/-- Writing a **memory operand** is writing the byte at its address, and then moving HL if the
operand says so. -/
theorem writeOperand_of_isMemory {i : MemoryInterface σ} (s : State σ) (v : Byte) {o : Operand8}
    (h : o.isMemory = true) :
    writeOperand i s v o = afterAccess (s.write8 i (operandAddress s o) v) o := by
  cases o with
  | register r => cases h
  | immediate w => cases h
  | _ => rfl

/-- The demand of reading an operand. -/
def readDemands (s : State σ) (o : Operand8) : List (Demand × HostWord) :=
  if o.isMemory then [(.read (operandAddress s o), s.cycles)] else []

/-- The demand of writing an operand. -/
def writeDemands (s : State σ) (v : Byte) (o : Operand8) : List (Demand × HostWord) :=
  if o.isMemory then [(.write (operandAddress s o) v, s.cycles)] else []

/-- How an operation that reads an operand and writes it back changes it. -/
def changeOf : Operation → Option (Operand8 × (State σ → Byte → Byte × State σ))
  | .increment target => some (target, fun s v => (v + 1, { s with zero := decide (v + 1 = 0) }))
  | .decrement target => some (target, fun s v => (v - 1, { s with zero := decide (v - 1 = 0) }))
  | .shift op target =>
    some (target, fun s v =>
      let r := shift op v s.carry
      (r.value, setFlags s r.zero r.carry))
  | .reset index target => some (target, fun s v => (v &&& ~~~((1 : Byte) <<< index), s))
  | .set index target => some (target, fun s v => (v ||| (1 : Byte) <<< index, s))
  | _ => none

/-- The demands of an operation that reads an operand and writes it back. -/
def modifyDemands (i : MemoryInterface σ) (s : State σ) (o : Operand8)
    (change : State σ → Byte → Byte × State σ) : List (Demand × HostWord) :=
  let (v, t) := readOperand i s o
  let (v, t) := change t v
  readDemands s o ++ writeDemands t v o

/-! ### Instructions -/

/-- Counting no cycles. -/
theorem State.addCycles_zero (s : State σ) : s.addCycles 0 = s := by
  rw [addCycles, BitVec.add_zero]

/-- The demands of an operation whose base cycles have been counted. -/
def performDemands (i : MemoryInterface σ) (next : Address) (operation : Operation) (s : State σ) :
    List (Demand × HostWord) :=
  match operation with
  | .di => [(.interrupts false, s.cycles)]
  | .ei => [(.interrupts true, s.cycles)]
  | .load dst src =>
    let (v, t) := readOperand i s src
    readDemands s src ++ writeDemands t v dst
  | .storeStackPointer a => [(.writeWord a s.sp, s.cycles)]
  | .alu _ src | .bit _ src => readDemands s src
  | .call condition _ =>
    if taken s condition then
      [(.push s.sp next, (s.addCycles operation.cycles.branchTaken).cycles)]
    else []
  | .ret condition =>
    if taken s condition then [(.pop s.sp, (s.addCycles operation.cycles.branchTaken).cycles)]
      else []
  | .retInterrupt => [(.interrupts true, s.cycles), (.pop s.sp, s.cycles)]
  | .restart _ => [(.push s.sp next, s.cycles)]
  | .push pair => [(.push s.sp (s.getPair pair), s.cycles)]
  | .pop _ => [(.pop s.sp, s.cycles)]
  | operation =>
    match changeOf operation with
    | some (target, change) => modifyDemands i s target change
    | none => []

theorem performDemands_load (i : MemoryInterface σ) (next : Address) (dst src : Operand8)
    (s : State σ) :
    performDemands i next (.load dst src) s =
      readDemands s src ++ writeDemands (readOperand i s src).2 (readOperand i s src).1 dst := rfl

theorem performDemands_call (i : MemoryInterface σ) (next target : Address)
    (condition : Option Guest.Condition) (s : State σ) :
    performDemands i next (.call condition target) s =
      if taken s condition then
        [(.push s.sp next,
          (s.addCycles (Operation.call condition target).cycles.branchTaken).cycles)]
      else [] := rfl

theorem performDemands_ret (i : MemoryInterface σ) (next : Address)
    (condition : Option Guest.Condition) (s : State σ) :
    performDemands i next (.ret condition) s =
      if taken s condition then
        [(.pop s.sp, (s.addCycles (Operation.ret condition).cycles.branchTaken).cycles)]
      else [] := rfl

/-- An operation that reads an operand and writes it back does no more than that, and stays in the
block. -/
theorem perform_of_changeOf (i : MemoryInterface σ) (next : Address) (s : State σ)
    {operation : Operation} {target : Operand8} {change : State σ → Byte → Byte × State σ}
    (h : changeOf operation = some (target, change)) :
    perform i next operation s = (modifyOperand i s target change, none) ∧
      performDemands i next operation s = modifyDemands i s target change := by
  cases operation with
  | increment | decrement | shift | reset | set =>
    cases h
    exact ⟨rfl, rfl⟩
  | _ => cases h

/-- The demands of an instruction. -/
def stepDemands (i : MemoryInterface σ) (p : Placed) (s : State σ) : List (Demand × HostWord) :=
  performDemands i p.next p.instruction.operation (s.addCycles p.instruction.cycles.base)

/-- **The demands of a block**, up to the first instruction that leaves it. -/
def blockDemands (i : MemoryInterface σ) : List Placed → State σ → List (Demand × HostWord)
  | [], _ => []
  | p :: ps, s =>
    stepDemands i p s ++
      match step i p s with
      | (_, some _) => []
      | (s, none) => blockDemands i ps s

/-- How demands are met, one after another. -/
def demandEvents (demands : List (Demand × HostWord)) : List Event :=
  demands.map fun (d, cycles) => d.event cycles

@[simp]
theorem demandEvents_nil : demandEvents [] = [] := rfl

@[simp]
theorem demandEvents_append (ds es : List (Demand × HostWord)) :
    demandEvents (ds ++ es) = demandEvents ds ++ demandEvents es := List.map_append

end Dynarec.Interpreter
