import Dynarec.Bridge.Interface
import Dynarec.Host.Registers

/-!
# Machine states

The part of the host that generated code can reach: registers, flags, the **host stack** below the
return address, the cycle counter of the execution context, and guest memory. The host stack is the
list of the words pushed since entry, the top first; a state is **balanced** when the stack pointer
fits that list.

Generated code may address the window and the execution context (`locate`), and nothing else.
-/

namespace Dynarec.Machine

open Bridge (Layout GuestMemory)
open Host (Register Registers Flags Memory)

/-- The host around a piece of generated code. -/
structure Environment where
  layout : Layout
  /-- The host address of the memory device. -/
  device : HostWord
  /-- The stack pointer on entry, which points at the return address. -/
  stackTop : HostWord
  /-- What the registers without guest state hold on entry. -/
  scratch : Registers
  /-- The flags on entry. -/
  flags : Flags

/-- The state of the machine, over memory devices of type `σ`. -/
structure State (σ : Type) where
  registers : Registers
  flags : Flags
  /-- The words pushed since entry, the top first. -/
  stack : List HostWord
  /-- The cycle counter in the execution context. -/
  contextCycles : HostWord
  memory : GuestMemory σ

/-- **What cannot go on**: something that a host would answer with a trap, or that would leave the
part of it that is modelled. -/
inductive Trap
  /-- There is no instruction at the offset. -/
  | badInstruction (offset : Int)
  /-- The address is neither in the window nor a field of the execution context. -/
  | badAddress (address : HostWord)
  /-- The stack pointer does not fit the words pushed since entry. -/
  | unbalancedStack
  /-- A word above those pushed since entry was to be popped, or a return with some left. -/
  | foreignStack
  /-- A call with a misaligned stack, of something that is no handler, or for another device. -/
  | badCall
  /-- The code did not return after as many instructions as it has bytes. -/
  | endless
  deriving DecidableEq

namespace State

variable {σ : Type}

/-- Whether the stack pointer fits the words pushed since entry. -/
def isBalanced (env : Environment) (s : State σ) : Bool :=
  s.registers.get .rsp == env.stackTop - BitVec.ofNat 64 (8 * s.stack.length)

/-- Pushes a word. -/
def push (env : Environment) (s : State σ) (v : HostWord) : Except Trap (State σ) :=
  if s.isBalanced env then
    .ok { s with
      stack := v :: s.stack
      registers := s.registers.set .rsp (s.registers.get .rsp - 8) }
  else .error .unbalancedStack

/-- Pops a word. -/
def pop (env : Environment) (s : State σ) : Except Trap (HostWord × State σ) :=
  if s.isBalanced env then
    match s.stack with
    | [] => .error .foreignStack
    | v :: rest =>
      .ok (v, { s with
        stack := rest
        registers := s.registers.set .rsp (s.registers.get .rsp + 8) })
  else .error .unbalancedStack

/-- The state with another value in a register. -/
def setRegister (s : State σ) (r : Register) (v : HostWord) : State σ :=
  { s with registers := s.registers.set r v }

/-- The state with another window. -/
def setWindow (s : State σ) (w : Guest.Window) : State σ :=
  { s with memory := { s.memory with window := w } }

end State

/-! ### Addresses -/

/-- The address of a memory operand. -/
def effectiveAddress (registers : Registers) (m : Memory) : HostWord :=
  registers.get m.base + ((m.index.map registers.get).getD 0) + m.displacement.signExtend 64

/-- A place that generated code may access. -/
inductive Location
  /-- Guest memory from a guest address on. -/
  | window (a : Address)
  /-- The execution context from an offset on. -/
  | context (offset : HostWord)
  deriving DecidableEq

/-- The size of the execution context. -/
def contextSize : Nat := 56

/-- **Where** `count` bytes from a host address on lie, provided that the window or the context
holds all of them. -/
def locate (layout : Layout) (count : Nat) (a : HostWord) : Option Location :=
  if (a - layout.windowBase).toNat + count ≤ 0x10000 then
    some (.window ((a - layout.windowBase).setWidth 16))
  else if (a - layout.context).toNat + count ≤ contextSize then some (.context (a - layout.context))
  else none

end Dynarec.Machine
