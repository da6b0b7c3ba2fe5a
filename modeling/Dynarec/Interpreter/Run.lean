import Dynarec.Codegen.Compile
import Dynarec.Interpreter.Step
import Dynarec.Vm.Cpu

/-!
# Interpreted runs

A `Session` does what a virtual machine does, but interprets the block at the next guest address
instead of executing compiled code. Like a virtual machine it keeps the blocks it has read, so that
a block goes on as it was when it was first entered even if its guest bytes have changed since.
-/

namespace Dynarec.Interpreter

open Bridge (GuestMemory MemoryInterface)
open Codegen (Config)
open Guest (Ending ExitReason Placed ScanError)

variable {σ : Type}

/-! ### Entering and leaving -/

/-- The interpreter state for a guest processor. Of a register's word only the low bits count. -/
def State.ofCpu (c : Cpu) (contextCycles : HostWord) (memory : GuestMemory σ) : State σ where
  a := c.a.setWidth 8
  zero := c.f.getLsbD 7
  carry := c.f.getLsbD 4
  bc := c.bc.setWidth 16
  de := c.de.setWidth 16
  hl := c.hl.setWidth 16
  sp := c.sp.setWidth 16
  cycles := c.cycles
  contextCycles := contextCycles
  memory := memory

/-- The guest processor in an interpreter state, with the next guest address. -/
def State.toCpu (s : State σ) (pc : Address) : Cpu where
  a := s.a.setWidth 64
  f := s.f.setWidth 64
  bc := s.bc.setWidth 64
  de := s.de.setWidth 64
  hl := s.hl.setWidth 64
  sp := s.sp.setWidth 64
  pc := pc.setWidth 64
  cycles := s.cycles

/-! ### Sessions -/

/-- The instructions of a block and where it ends. -/
structure Listing where
  instructions : List Placed
  ending : Ending

/-- Reads the block at a guest address. -/
def Listing.read (config : Config) (window : Guest.Window) (start : Address) :
    Except ScanError Listing :=
  let scan := Codegen.scan config window.image start
  scan.outcome.map fun ending => ⟨scan.listing, ending⟩

/-- Interprets the instructions of a block, up to the first one that leaves it. -/
def Listing.run (i : MemoryInterface σ) (l : Listing) (s : State σ) :
    State σ × ExitReason × Address :=
  runBlock i (BitVec.ofNat 16 l.ending.cursor) l.instructions s

/-- An interpreting machine over memory devices of type `σ`. -/
structure Session (σ : Type) where
  cpu : Cpu
  memory : GuestMemory σ
  contextCycles : HostWord
  /-- The blocks read so far, each with its guest address. -/
  blocks : List (Address × Listing)

namespace Session

/-- The block at a guest address, among those read so far or read now. -/
def blockAt (config : Config) (s : Session σ) (start : Address) :
    Except ScanError (Listing × Session σ) :=
  match s.blocks.lookup start with
  | some l => .ok (l, s)
  | none =>
    (Listing.read config s.memory.window start).map fun l =>
      (l, { s with blocks := (start, l) :: s.blocks })

/-- **Interprets** the block at the next guest address. -/
def run (config : Config) (i : MemoryInterface σ) (s : Session σ) :
    Except ScanError ExitReason × Session σ :=
  match s.blockAt config s.cpu.nextAddress with
  | .error e => (.error e, s)
  | .ok (l, s) =>
    let (left, reason, pc) := l.run i (.ofCpu s.cpu s.contextCycles s.memory)
    (.ok reason, { s with
      cpu := left.toCpu pc
      memory := left.memory
      contextCycles := left.contextCycles })

end Session

end Dynarec.Interpreter
