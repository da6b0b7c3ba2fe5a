import Dynarec.Bridge.Interface
import Dynarec.Guest.Operand

/-!
# Interpreter states

The guest processor as an instruction sees it, with guest memory and its device. Only Z and C of the
flags are kept.

Reads and writes are **dispatched** by their guest address: plain memory is accessed in the window,
everything else through the memory interface, which is told the elapsed clock cycles. The stack is
accessed in the window while SP lies in high memory.
-/

namespace Dynarec.Interpreter

open Bridge (GuestMemory MemoryInterface)
open Guest (Reg8 Reg16 StackPair)

/-- The guest processor and its memory, over memory devices of type `σ`. -/
structure State (σ : Type) where
  a : Byte
  zero : Bool
  carry : Bool
  bc : BitVec 16
  de : BitVec 16
  hl : BitVec 16
  sp : BitVec 16
  cycles : HostWord
  /-- The clock count that came with the last request to the memory interface. -/
  contextCycles : HostWord
  memory : GuestMemory σ

namespace State

variable {σ : Type}

/-! ### Registers -/

/-- The value of an 8 bit register. -/
def get8 (s : State σ) : Reg8 → Byte
  | .a => s.a
  | .b => s.bc.extractLsb' 8 8
  | .c => s.bc.extractLsb' 0 8
  | .d => s.de.extractLsb' 8 8
  | .e => s.de.extractLsb' 0 8
  | .h => s.hl.extractLsb' 8 8
  | .l => s.hl.extractLsb' 0 8

/-- Sets an 8 bit register. -/
def set8 (s : State σ) (r : Reg8) (v : Byte) : State σ :=
  match r with
  | .a => { s with a := v }
  | .b => { s with bc := v ++ s.bc.extractLsb' 0 8 }
  | .c => { s with bc := s.bc.extractLsb' 8 8 ++ v }
  | .d => { s with de := v ++ s.de.extractLsb' 0 8 }
  | .e => { s with de := s.de.extractLsb' 8 8 ++ v }
  | .h => { s with hl := v ++ s.hl.extractLsb' 0 8 }
  | .l => { s with hl := s.hl.extractLsb' 8 8 ++ v }

/-- The value of a register pair. -/
def get16 (s : State σ) : Reg16 → BitVec 16
  | .bc => s.bc
  | .de => s.de
  | .hl => s.hl
  | .sp => s.sp

/-- Sets a register pair. -/
def set16 (s : State σ) (r : Reg16) (v : BitVec 16) : State σ :=
  match r with
  | .bc => { s with bc := v }
  | .de => { s with de := v }
  | .hl => { s with hl := v }
  | .sp => { s with sp := v }

/-- The register F: Z at bit 7, C at bit 4. -/
def f (s : State σ) : Byte := BitVec.ofNat 8 (128 * s.zero.toNat + 16 * s.carry.toNat)

/-- The value of a stack pair. -/
def getPair (s : State σ) : StackPair → BitVec 16
  | .bc => s.bc
  | .de => s.de
  | .hl => s.hl
  | .af => s.a ++ s.f

/-- Sets a stack pair. Of F only Z and C are kept. -/
def setPair (s : State σ) (r : StackPair) (v : BitVec 16) : State σ :=
  match r with
  | .bc => { s with bc := v }
  | .de => { s with de := v }
  | .hl => { s with hl := v }
  | .af => { s with a := v.extractLsb' 8 8, zero := v.getLsbD 7, carry := v.getLsbD 4 }

/-- Adds to the clock. -/
def addCycles (s : State σ) (n : Nat) : State σ := { s with cycles := s.cycles + BitVec.ofNat 64 n }

/-! ### Requests -/

/-- The state after the memory interface has served a request. -/
def afterRequest (s : State σ) (memory : GuestMemory σ) : State σ :=
  { s with memory, contextCycles := s.cycles }

/-- The state with another window. -/
def setWindow (s : State σ) (w : Guest.Window) : State σ :=
  { s with memory := { s.memory with window := w } }

/-- Reads a byte: below `0xFE00` from the window. -/
def read8 (i : MemoryInterface σ) (s : State σ) (a : Address) : Byte × State σ :=
  if a.toNat < 0xFE00 then (s.memory.window.get a, s)
  else
    let (v, memory) := i.read8 a s.cycles s.memory
    (v, s.afterRequest memory)

/-- Writes a byte: from `0x8000` to `0xFDFF` to the window. -/
def write8 (i : MemoryInterface σ) (s : State σ) (a : Address) (v : Byte) : State σ :=
  if 0x8000 ≤ a.toNat ∧ a.toNat < 0xFE00 then s.setWindow (s.memory.window.set a v)
  else s.afterRequest (i.write8 a v s.cycles s.memory)

/-- Writes a word: from `0x8000` to `0xFDFE` to the window. -/
def write16 (i : MemoryInterface σ) (s : State σ) (a : Address) (v : BitVec 16) : State σ :=
  if 0x8000 ≤ a.toNat ∧ a.toNat < 0xFDFF then s.setWindow (s.memory.window.setWord a v)
  else s.afterRequest (i.write16 a v s.cycles s.memory)

/-- Tells the memory interface whether interrupts are enabled. -/
def setInterrupts (i : MemoryInterface σ) (s : State σ) (enabled : Bool) : State σ :=
  s.afterRequest (i.setInterruptMasterEnable enabled s.cycles s.memory)

/-! ### Stack -/

/-- Pushes a word: to the window if SP was at `0xFF80` or above. -/
def push (i : MemoryInterface σ) (s : State σ) (v : BitVec 16) : State σ :=
  let top := s.sp - 2
  let pushed := { s with sp := top }
  if 0xFF80 ≤ s.sp.toNat then pushed.setWindow (s.memory.window.setWord top v)
  else pushed.afterRequest (i.write16 top v s.cycles s.memory)

/-- Pops a word: from the window if SP was from `0xFF80` to `0xFFFE`. -/
def pop (i : MemoryInterface σ) (s : State σ) : BitVec 16 × State σ :=
  let popped := { s with sp := s.sp + 2 }
  if 0xFF80 ≤ s.sp.toNat ∧ s.sp.toNat ≠ 0xFFFF then (s.memory.window.getWord s.sp, popped)
  else
    let (v, memory) := i.read16 s.sp s.cycles s.memory
    (v, popped.afterRequest memory)

end State

end Dynarec.Interpreter
