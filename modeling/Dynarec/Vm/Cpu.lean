import Dynarec.Codegen.Binding
import Dynarec.Machine.State

/-!
# The guest processor between blocks

Outside of generated code the guest registers are kept in a `Cpu`, one host word each, with F in the
guest's layout: Z at bit 7 and C at bit 4. `Cpu.enter` puts them into their host registers and
`Cpu.leave` takes them out again. Entering looks at the low 8 bits of A and F and at the low 16 bits
of the others only, so whatever else a word holds has no effect on generated code.

The host does this by the entry trampoline (`Dynarec.Vm.Trampoline`), whose loads and stores these
functions sum up: `VirtualMachine.enter_of_belongsTo` proves that a block entered by way of the
trampoline does what the machine here makes of it.
-/

namespace Dynarec

open Bridge (GuestMemory)
open Host (Registers)

/-- The guest registers, the next guest address and the elapsed clock cycles. -/
structure Cpu where
  a : HostWord
  f : HostWord
  bc : HostWord
  de : HostWord
  hl : HostWord
  sp : HostWord
  pc : HostWord
  cycles : HostWord
  deriving DecidableEq

/-- The shadow flags that stand for a guest F. -/
def shadowOfGuest (f : HostWord) : HostWord := ((f >>> 1) &&& 0x40) ||| ((f >>> 4) &&& 0x01)

/-- The guest F that the shadow flags stand for. -/
def guestOfShadow (shadow : HostWord) : HostWord :=
  ((shadow &&& 0x40) <<< 1) ||| ((shadow &&& 0x01) <<< 4)

/-- The low bits of a word. -/
def lowBits (w : Nat) (v : HostWord) : HostWord := (v.setWidth w).setWidth 64

namespace Cpu

/-- The processor at power on. -/
def initial : Cpu := ⟨0, 0, 0, 0, 0, 0, 0, 0⟩

/-- The guest address at which execution goes on. -/
def nextAddress (c : Cpu) : Address := c.pc.setWidth 16

/-- The host registers on **entry** to a block. -/
def registers (env : Machine.Environment) (c : Cpu) : Registers :=
  env.scratch
    |>.set .rsp env.stackTop
    |>.set Codegen.accumulator (lowBits 8 c.a)
    |>.set (Codegen.pairRegister .bc) (lowBits 16 c.bc)
    |>.set (Codegen.pairRegister .de) (lowBits 16 c.de)
    |>.set (Codegen.pairRegister .hl) (lowBits 16 c.hl)
    |>.set Codegen.cycleCounter c.cycles
    |>.set Codegen.shadowFlags (shadowOfGuest (lowBits 8 c.f))
    |>.set Codegen.stackPointer (env.layout.windowBase ||| lowBits 16 c.sp)

/-- The machine state on entry to a block. -/
def enter {σ : Type} (env : Machine.Environment) (c : Cpu) (contextCycles : HostWord)
    (memory : GuestMemory σ) : Machine.State σ where
  registers := c.registers env
  flags := env.flags
  stack := []
  contextCycles := contextCycles
  memory := memory

/-- The guest registers when a block has returned, the next guest address being in its exit
register. -/
def leave (r : Registers) : Cpu where
  a := r.get Codegen.accumulator
  f := guestOfShadow (r.get Codegen.shadowFlags)
  bc := r.get (Codegen.pairRegister .bc)
  de := r.get (Codegen.pairRegister .de)
  hl := r.get (Codegen.pairRegister .hl)
  sp := lowBits 16 (r.get Codegen.stackPointer)
  pc := lowBits 16 (r.get Codegen.value)
  cycles := r.get Codegen.cycleCounter

/-- The number that a returned block gives as its reason. -/
def exitCode (r : Registers) : HostWord := lowBits 32 (r.get Codegen.result)

end Cpu

end Dynarec
