import Dynarec.Machine.Run
import Dynarec.Vm.Cache
import Dynarec.Vm.Cpu

/-!
# The virtual machine

A `VirtualMachine` holds the guest processor, guest memory, the cycle counter as of the last handler
call, and the compiled blocks. `run` executes the block at the next guest address, which is compiled
first if it is not in the cache. Cached blocks keep running after their guest bytes have changed,
until those are invalidated.

What does not change over the life of a machine is its `Setup`: the host around generated code, the
memory interface, and the configuration of the compiler.
-/

namespace Dynarec

open Bridge (GuestMemory MemoryInterface)
open Codegen (CompileError CompiledBlock Config)
open Guest (ExitReason Range)
open Machine (Environment Trap)

/-- What does not change over the life of a machine. -/
structure Setup (σ : Type) where
  env : Environment
  interface : MemoryInterface σ
  config : Config

/-- A **virtual machine** over memory devices of type `σ`. -/
structure VirtualMachine (σ : Type) where
  cpu : Cpu
  memory : GuestMemory σ
  /-- The cycle counter in the execution context. -/
  contextCycles : HostWord
  cache : Cache

/-- Why a machine could not run a block to its end. -/
inductive VmError
  | compile (e : CompileError)
  /-- The block returned a number that is no exit reason. -/
  | invalidExit (code : HostWord)
  /-- The host code could not be executed. -/
  | trap (t : Trap)
  deriving DecidableEq

namespace VirtualMachine

variable {σ : Type}

/-- A machine that has not run yet. -/
def ofMemory (memory : GuestMemory σ) : VirtualMachine σ := ⟨.initial, memory, 0, .empty⟩

/-- **Compiles** the block at a guest address from the window as it is, without putting it into the
cache. -/
def compile (setup : Setup σ) (vm : VirtualMachine σ) (start : Address) :
    Except CompileError CompiledBlock :=
  Codegen.compile setup.config setup.env.layout vm.memory.window.image start

/-- **Executes** a block, regardless of the next guest address. -/
def execute (setup : Setup σ) (vm : VirtualMachine σ) (block : CompiledBlock) :
    Except VmError ExitReason × VirtualMachine σ :=
  let entered := vm.cpu.enter setup.env vm.contextCycles vm.memory
  match Machine.run setup.env setup.interface block.program entered with
  | .error t => (.error (.trap t), vm)
  | .ok left =>
    let vm := { vm with
      cpu := .leave left.registers
      memory := left.memory
      contextCycles := left.contextCycles }
    match ExitReason.ofCode? (Cpu.exitCode left.registers) with
    | some reason => (.ok reason, vm)
    | none => (.error (.invalidExit (Cpu.exitCode left.registers)), vm)

/-- The block at a guest address, from the cache or compiled into it. -/
def blockAt (setup : Setup σ) (vm : VirtualMachine σ) (start : Address) :
    Except CompileError (CompiledBlock × VirtualMachine σ) :=
  match vm.cache.find? start with
  | some block => .ok (block, vm)
  | none =>
    match vm.compile setup start with
    | .error e => .error e
    | .ok block => .ok (block, { vm with cache := vm.cache.insert start block })

/-- **Runs** the block at the next guest address. -/
def run (setup : Setup σ) (vm : VirtualMachine σ) : Except VmError ExitReason × VirtualMachine σ :=
  match vm.blockAt setup vm.cpu.nextAddress with
  | .error e => (.error (.compile e), vm)
  | .ok (block, vm) => vm.execute setup block

/-- Runs block after block until one ends for the given reason, a run fails, or the limit is
reached. Yields the outcome of every run and the machine after it. -/
def runUntil (setup : Setup σ) (goal : ExitReason) :
    (limit : Nat) → VirtualMachine σ → List (Except VmError ExitReason × VirtualMachine σ)
  | 0, _ => []
  | limit + 1, vm =>
    match vm.run setup with
    | (.ok reason, vm) =>
      (.ok reason, vm) :: if reason = goal then [] else runUntil setup goal limit vm
    | (.error e, vm) => [(.error e, vm)]

/-- Drops the cached blocks that overlap a range. Yields how many there were. -/
def invalidate (vm : VirtualMachine σ) (r : Range) : Nat × VirtualMachine σ :=
  (vm.cache.countOverlapping r, { vm with cache := vm.cache.invalidate r })

/-- Whether the block at a guest address is cached. -/
def isCached (vm : VirtualMachine σ) (a : Address) : Bool := vm.cache.contains a

/-- Copies bytes into the window, unless they reach past the top of memory. Cached blocks stay. -/
def load? (vm : VirtualMachine σ) (a : Address) (data : List Byte) : Option (VirtualMachine σ) :=
  (vm.memory.window.load? a data).map fun window => { vm with memory := { vm.memory with window } }

end VirtualMachine

end Dynarec
