import Dynarec.Codegen.Flags
import Dynarec.Vm.Basic

/-!
# The entry trampoline

The host calls a block through the **entry trampoline**, a piece of machine code of its own. It is
called like any function, with the address of the guest processor's record in `rdi` and the address
of the block in `rsi`. It saves the registers that its caller expects to be preserved, loads the
guest registers, calls the block, stores the guest registers back, and returns the number that the
block gave as its reason. The seven words that it pushes move the host stack from one call boundary
to the next, so a block finds its stack aligned like any other function.

`code` is the trampoline as it is emitted, and `run` executes it. Its loads and stores reach the
record, and its call runs the program at the address; everything else is executed like generated
code. `VirtualMachine.enter` calls it to execute a block.
-/

namespace Dynarec

open Bridge (MemoryInterface)
open Codegen (CompiledBlock accumulator cycleCounter guestToShadow operand pairRegister
  rebiasStackPointer result scratchFlags shadowToGuest stackPointer value)
open Guest (ExitReason Reg16)
open Host (Flags Instruction Memory Program Register Registers)
open Machine (Environment Flow Trap)

namespace Cpu

/-! ### The record -/

/-- A field of the record that holds the guest processor. -/
inductive Field
  | a | f | bc | de | hl | sp | pc | cycles
  deriving DecidableEq

namespace Field

/-- The fields as they follow one another in the record. -/
def all : List Field := [a, f, bc, de, hl, sp, pc, cycles]

/-- The offset of a field in the record, in which every field is a host word. -/
def offset : Field → BitVec 32
  | a => 0
  | f => 8
  | bc => 16
  | de => 24
  | hl => 32
  | sp => 40
  | pc => 48
  | cycles => 56

/-- The field at an offset of the record. -/
def ofOffset? (o : HostWord) : Option Field :=
  all.find? fun field => field.offset.signExtend 64 == o

@[simp]
theorem ofOffset?_offset (field : Field) : ofOffset? (field.offset.signExtend 64) = some field := by
  cases field <;> decide

end Field

/-- The value of a field. -/
def get (c : Cpu) : Field → HostWord
  | .a => c.a
  | .f => c.f
  | .bc => c.bc
  | .de => c.de
  | .hl => c.hl
  | .sp => c.sp
  | .pc => c.pc
  | .cycles => c.cycles

/-- The processor with another value in a field. -/
def set (c : Cpu) (field : Field) (v : HostWord) : Cpu :=
  match field with
  | .a => { c with a := v }
  | .f => { c with f := v }
  | .bc => { c with bc := v }
  | .de => { c with de := v }
  | .hl => { c with hl := v }
  | .sp => { c with sp := v }
  | .pc => { c with pc := v }
  | .cycles => { c with cycles := v }

end Cpu

namespace Trampoline

/-! ### The code -/

/-- The registers that generated code may change although a caller expects them to be preserved,
and the one that points to the record. -/
def savedRegisters : List Register := [.rbx, .rbp, .r12, .r13, .r14, .r15, .rdi]

/-- A field of the record in memory. -/
def place (field : Cpu.Field) : Memory := (Memory.ofBase .rdi).offset field.offset

/-- The register pairs that are kept in host registers of their own, each with its field. -/
def pairFields : List (Reg16 × Cpu.Field) := [(.bc, .bc), (.de, .de), (.hl, .hl)]

/-- Loads A, the pairs and the cycles into their host registers, and F as it is. -/
def loadCode : List Instruction :=
  .movzx false accumulator (.memory (place .a)) ::
    pairFields.map (fun (pair, field) => .movzx true (pairRegister pair) (.memory (place field))) ++
    [.load .qword cycleCounter (place .cycles), .movzx false result (.memory (place .f))]

/-- What comes before the call: the registers are saved and the guest registers loaded. -/
def entryCode (windowBase : HostWord) : List Instruction :=
  savedRegisters.map .push ++ loadCode ++ guestToShadow result operand ++
    [.movzx true result (.memory (place .sp))] ++ rebiasStackPointer windowBase result

/-- Stores the next guest address, A, the pairs, the cycles and SP. The reason is kept aside. -/
def storeCode : List Instruction :=
  [.mov .dword scratchFlags (.register result), .movzx true value (.register value),
      .store .qword (place .pc) value, .store .qword (place .a) accumulator] ++
    pairFields.map (fun (pair, field) => .store .qword (place field) (pairRegister pair)) ++
    [.store .qword (place .cycles) cycleCounter, .movzx true operand (.register stackPointer),
      .store .qword (place .sp) operand]

/-- What comes after the call: the guest registers are stored, the reason becomes the result, and
the saved registers are restored. -/
def exitCode : List Instruction :=
  [.pop .rdi] ++ storeCode ++ shadowToGuest result operand ++
    [.store .qword (place .f) result, .mov .dword result (.register scratchFlags)] ++
    (savedRegisters.take 6).reverse.map .pop ++ [.ret]

/-- The **entry trampoline** for a window at a host address. -/
def code (windowBase : HostWord) : List Instruction :=
  entryCode windowBase ++ [.call (some (.register .rsi))] ++ exitCode

/-! ### Its execution -/

/-- What the trampoline is executed in: the host around it, the address of the record, and the
programs that can be called. -/
structure Surroundings where
  env : Environment
  record : HostWord
  program? : HostWord → Option Program

/-- The host while the trampoline is executed, with the record. -/
structure Frame (σ : Type) where
  machine : Machine.State σ
  cpu : Cpu

variable {σ : Type}

namespace Surroundings

/-- The field of the record at a host address. -/
def fieldAt (h : Surroundings) (a : HostWord) : Except Trap Cpu.Field :=
  match Cpu.Field.ofOffset? (a - h.record) with
  | some field => .ok field
  | none => .error (.badAddress a)

/-- The host around a program that is called in a state: the return address is on top of its
stack. -/
def callee (h : Surroundings) (s : Machine.State σ) : Environment :=
  { h.env with stackTop := s.registers.get .rsp - 8, scratch := s.registers, flags := s.flags }

/-- **Calls** the program at a host address. It has a stack of its own, on top of the caller's. -/
def callProgram (h : Surroundings) (i : MemoryInterface σ) (a : HostWord) (s : Machine.State σ) :
    Except Trap (Machine.State σ) :=
  match h.program? a with
  | none => .error .badCall
  | some program =>
    if s.isBalanced h.env then
      (Machine.run (h.callee s) i program
          { s with registers := s.registers.set .rsp (h.callee s).stackTop, stack := [] }).map
        fun t =>
          { t with registers := t.registers.set .rsp (t.registers.get .rsp + 8), stack := s.stack }
    else .error .unbalancedStack

end Surroundings

/-- **Executes** an instruction of the trampoline. -/
def execute (h : Surroundings) (i : MemoryInterface σ) (f : Frame σ) :
    Instruction → Except Trap (Flow × Frame σ)
  | .movzx wide dst (.memory src) =>
    (h.fieldAt (Machine.effectiveAddress f.machine.registers src)).map fun field =>
      (.next, { f with
        machine := f.machine.setRegister dst (lowBits (if wide then 16 else 8) (f.cpu.get field)) })
  | .load .qword dst src =>
    (h.fieldAt (Machine.effectiveAddress f.machine.registers src)).map fun field =>
      (.next, { f with machine := f.machine.setRegister dst (f.cpu.get field) })
  | .store .qword dst src =>
    (h.fieldAt (Machine.effectiveAddress f.machine.registers dst)).map fun field =>
      (.next, { f with cpu := f.cpu.set field (f.machine.registers.get src) })
  | .call (some (.register target)) =>
    (h.callProgram i (f.machine.registers.get target) f.machine).map fun s =>
      (.next, { f with machine := s })
  | instruction =>
    (Machine.execute h.env i f.machine instruction).map fun (flow, s) =>
      (flow, { f with machine := s })

/-- **Runs** instructions one after another until one of them returns. -/
def run (h : Surroundings) (i : MemoryInterface σ) :
    List Instruction → Frame σ → Except Trap (Frame σ)
  | [], _ => .error .endless
  | instruction :: rest, f =>
    match execute h i f instruction with
    | .error trap => .error trap
    | .ok (.next, f) => run h i rest f
    | .ok (.ret, f) => .ok f
    | .ok (.jump displacement, _) => .error (.badInstruction displacement.toInt)

end Trampoline

namespace VirtualMachine

variable {σ : Type}

/-- The host processor when the trampoline is called: `rdi` and `rsi` hold its arguments, and `rsp`
points to the return address. -/
structure Caller where
  registers : Registers
  flags : Flags

/-- What the trampoline is executed in when it is called for a block. -/
def Caller.surroundings (caller : Caller) (env : Environment) (block : CompiledBlock) :
    Trampoline.Surroundings where
  env := { env with stackTop := caller.registers.get .rsp }
  record := caller.registers.get .rdi
  program? a := if a = caller.registers.get .rsi then some block.program else none

/-- **Enters** a block by way of the trampoline. -/
def enter (setup : Setup σ) (caller : Caller) (vm : VirtualMachine σ) (block : CompiledBlock) :
    Except VmError ExitReason × VirtualMachine σ :=
  let called : Trampoline.Frame σ :=
    ⟨⟨caller.registers, caller.flags, [], vm.contextCycles, vm.memory⟩, vm.cpu⟩
  match Trampoline.run (caller.surroundings setup.env block) setup.interface
      (Trampoline.code setup.env.layout.windowBase) called with
  | .error trap => (.error (.trap trap), vm)
  | .ok left =>
    let vm := { vm with
      cpu := left.cpu
      memory := left.machine.memory
      contextCycles := left.machine.contextCycles }
    let code := left.machine.registers.get result
    match ExitReason.ofCode? code with
    | some reason => (.ok reason, vm)
    | none => (.error (.invalidExit code), vm)

end VirtualMachine

end Dynarec
