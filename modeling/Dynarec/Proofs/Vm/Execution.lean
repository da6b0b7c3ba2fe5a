import Dynarec.Demo
import Dynarec.Proofs.Codegen.Compile
import Dynarec.Vm.Basic

/-!
# Executing a block

Executing the machine code of a block, under any cautious tracking of the host flags, is
interpreting the block: `execute_of_reads` for the machine afterwards, `executeEvents_of_reads` for
what is done to guest memory on the way.
-/

namespace Dynarec

open Bridge (GuestMemory)
open Codegen (CompiledBlock Tracking blockCode trackedBlock)
open Guest (Ending ExitReason Image Placed)
open Interpreter (blockDemands demandEvents runBlock)
open Machine (Event Visit)

variable {σ : Type} {setup : Setup σ}

namespace VirtualMachine

/-- The interpreter state in which a machine **enters** a block. -/
def entry (vm : VirtualMachine σ) : Interpreter.State σ := .ofCpu vm.cpu vm.contextCycles vm.memory

/-- The machine after a block has been **interpreted**, with the reason for which it was left. -/
def after (vm : VirtualMachine σ) :
    Interpreter.State σ × ExitReason × Address → Except VmError ExitReason × VirtualMachine σ
  | (left, reason, pc) =>
    (.ok reason, { vm with
      cpu := left.toCpu pc
      memory := left.memory
      contextCycles := left.contextCycles })

/-- The host instructions that are visited when a block is executed. -/
def visits (setup : Setup σ) (vm : VirtualMachine σ) (block : CompiledBlock) : List (Visit σ) :=
  (Machine.trace setup.env setup.interface block.program
    (vm.cpu.enter setup.env vm.contextCycles vm.memory)).1

/-- What executing a block does to guest memory. -/
def executeEvents (setup : Setup σ) (vm : VirtualMachine σ) (block : CompiledBlock) : List Event :=
  Machine.events setup.env (vm.visits setup block)

end VirtualMachine

namespace Codegen

theorem exitCode_of_left {reason : ExitReason} {pc : Address} {s : Machine.State σ}
    (h : Left reason pc s) : ExitReason.ofCode? (Cpu.exitCode s.registers) = some reason := by
  have hcode : Cpu.exitCode s.registers = reason.code := by
    rw [Cpu.exitCode, h.reason]
    cases reason <;> rfl
  rw [hcode, ExitReason.ofCode?_code]

variable {track : Tracking} {image : Image} {cursor : Nat} {listing : List Placed} {ending : Ending}
  {block : CompiledBlock}

/-- Executing the machine code of a block ends like **interpreting** it: the block is entered with
the registers of the guest, follows the path of its code, and is left with a reason and the next
guest address. -/
theorem execute_of_reads (hsound : setup.env.Sound) (htrack : track.Cautious)
    (hreads : image.Reads cursor listing ending)
    (hcode : block.program.code = (trackedBlock setup.env.layout track listing ending).bytes)
    (vm : VirtualMachine σ) :
    vm.execute setup block =
      vm.after (runBlock setup.interface (BitVec.ofNat 16 ending.cursor) listing vm.entry) := by
  obtain ⟨t, ht, hmirrors, hleft⟩ := yields_trackedBlock (i := setup.interface) hsound htrack hreads
    (mirrors_enter setup.env vm.cpu vm.contextCycles vm.memory)
  obtain ⟨hrun, -⟩ := ht.trace (fits_trackedBlock _ track listing ending) hcode
  rw [VirtualMachine.execute]
  simp only [hrun, exitCode_of_left hleft, hmirrors.leave hsound hleft.target_low, hmirrors.memory,
    hmirrors.contextCycles]
  rfl

/-- Executing the machine code of a block does to guest memory what the block **asks** of it, one
demand after another. -/
theorem executeEvents_of_reads (hsound : setup.env.Sound) (htrack : track.Cautious)
    (hreads : image.Reads cursor listing ending)
    (hcode : block.program.code = (trackedBlock setup.env.layout track listing ending).bytes)
    (vm : VirtualMachine σ) :
    vm.executeEvents setup block =
      demandEvents (blockDemands setup.interface listing vm.entry) := by
  obtain ⟨t, ht, -⟩ := yields_trackedBlock (i := setup.interface) hsound htrack hreads
    (mirrors_enter setup.env vm.cpu vm.contextCycles vm.memory)
  exact (ht.trace (fits_trackedBlock _ track listing ending) hcode).2

/-- The visits of a block are those on the path through its code, at offsets that are known before
it is run. -/
theorem visits_of_reads (hsound : setup.env.Sound) (htrack : track.Cautious)
    (hreads : image.Reads cursor listing ending)
    (hcode : block.program.code = (trackedBlock setup.env.layout track listing ending).bytes)
    (vm : VirtualMachine σ) :
    vm.visits setup block =
      ((trackedBlock setup.env.layout track listing ending).path setup.env setup.interface 0
        (vm.cpu.enter setup.env vm.contextCycles vm.memory)).visits := by
  obtain ⟨t, ht, -⟩ := yields_trackedBlock (i := setup.interface) hsound htrack hreads
    (mirrors_enter setup.env vm.cpu vm.contextCycles vm.memory)
  rw [VirtualMachine.visits,
    Machine.trace_eq_path (fits_trackedBlock _ track listing ending) hcode (ht 0).1]

end Codegen

/-! ### The demonstration machine -/

namespace Demo

/-- The host of the demonstration machine keeps what a host promises. -/
theorem hostEnvironment_sound : hostEnvironment.Sound where
  windowAligned := by decide
  contextApart := by decide
  stackAligned := by decide

/-- The demonstration machine with a limit for the instructions of a block. -/
def setupWith (limit : Nat) : Setup Messages :=
  ⟨hostEnvironment, interface, ⟨limit, false⟩⟩

/-- Guest memory with a program at its start. -/
def memory (program : List Byte) : GuestMemory Messages := ⟨Guest.Window.zeros.store 0 program, #[]⟩

end Demo

end Dynarec
