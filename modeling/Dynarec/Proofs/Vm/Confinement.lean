import Dynarec.Proofs.Machine.References
import Dynarec.Proofs.Vm.ControlFlow

/-!
# Memory confinement

The generated code of a block does not touch host memory that is not its own. Whatever the machine
is that executes it, and whatever handlers do in the meantime, each reference of an instruction that
is executed is **confined** (`memory_confined`): it lies in the window, or is to a field of the
execution context, of which only the cycle counter is written, or to a word of the host stack that
the block has pushed itself, or it is the return address, read at the end.
-/

namespace Dynarec

open Codegen (CompiledBlock Config)
open Guest (Image)
open Machine (Confined Reference references stackSlot trace)

variable {σ : Type} {setup : Setup σ}

/-- **Memory confinement.** Take a compiled block, and any machine that executes it. The block runs
to its end, and whatever an instruction on the way refers to is confined. -/
theorem memory_confined (hsound : setup.env.Sound) {config : Config} {image : Image}
    {start : Address} {block : CompiledBlock}
    (h : Codegen.compile config setup.env.layout image start = .ok block)
    (vm : VirtualMachine σ) :
    (∃ left, trace setup.env setup.interface block.program
      (vm.cpu.enter setup.env vm.contextCycles vm.memory) = (vm.visits setup block, .ok left)) ∧
    ∀ before v after, vm.visits setup block = before ++ v :: after →
      ∀ r ∈ references v.state v.instruction, Confined setup.env before after r := by
  obtain ⟨listing, ending, -, hreads, hcode⟩ := Codegen.reads_of_compile h
  have hentry := Codegen.mirrors_enter setup.env vm.cpu vm.contextCycles vm.memory
  obtain ⟨left, -, -, -, htrace, hreturning, -, -⟩ :=
    Codegen.returning_of_reads (i := setup.interface) hsound Codegen.Tracking.cautious_after hreads
      hcode hentry
  have hvisits : vm.visits setup block = _ := congrArg Prod.fst htrace
  have htame := Codegen.tame_trackedBlock setup.env.layout Codegen.HostFlags.after listing ending
  have hshallow :=
    Machine.shallow_path setup.env setup.interface htame.keepsStack 0 hentry.stack
  rw [hvisits]
  refine ⟨⟨left, htrace⟩, fun before v after hsplit r hr => ?_⟩
  -- the host stack is empty on entry, so there is nothing on it to account for
  have hback : Machine.Backed setup.env [] (vm.cpu.enter setup.env vm.contextCycles vm.memory) :=
    fun k hk => absurd hk (Nat.not_lt_zero k)
  exact hreturning.confined hsound.windowAligned hback hshallow.visits hsplit hr

/-- What the instructions that are executed refer to, one after another. -/
def VirtualMachine.references (setup : Setup σ) (vm : VirtualMachine σ) (block : CompiledBlock) :
    List Reference :=
  (vm.visits setup block).flatMap fun v => Machine.references v.state v.instruction

/-- The call of a subroutine. A handler pushes the return address: generated code itself stores the
cycle counter in the context, saves it on the host stack, reads the device and the entry point of
the handler, calls the handler, restores the cycle counter, and returns. -/
theorem memory_confined_calling :
    ∃ block,
      Codegen.compile ⟨64, false⟩ Demo.hostEnvironment.layout Demo.calling 0 = .ok block ∧
      (VirtualMachine.ofMemory (Demo.memory [])).references (Demo.setupWith 64) block =
        [⟨0x555500001008, 8, true⟩, stackSlot Demo.hostEnvironment 1 true,
          ⟨0x555500001000, 8, false⟩, ⟨0x555500001028, 8, false⟩,
          stackSlot Demo.hostEnvironment 2 true,
          stackSlot Demo.hostEnvironment 1 false,
          stackSlot Demo.hostEnvironment 0 false] ∧
      ∀ before v after,
        (VirtualMachine.ofMemory (Demo.memory [])).visits (Demo.setupWith 64) block =
          before ++ v :: after →
        ∀ r ∈ references v.state v.instruction,
          Confined Demo.hostEnvironment before after r := by
  have hreferences :
      (Codegen.compile ⟨64, false⟩ Demo.hostEnvironment.layout Demo.calling 0).map
        ((VirtualMachine.ofMemory (Demo.memory [])).references (Demo.setupWith 64)) =
      .ok [⟨0x555500001008, 8, true⟩, stackSlot Demo.hostEnvironment 1 true,
        ⟨0x555500001000, 8, false⟩, ⟨0x555500001028, 8, false⟩,
        stackSlot Demo.hostEnvironment 2 true,
        stackSlot Demo.hostEnvironment 1 false,
        stackSlot Demo.hostEnvironment 0 false] := rfl
  cases hblock : Codegen.compile ⟨64, false⟩ Demo.hostEnvironment.layout Demo.calling 0 with
  | error e =>
    rw [hblock] at hreferences
    cases hreferences
  | ok block =>
    rw [hblock] at hreferences
    refine ⟨block, rfl, Except.ok.inj hreferences, ?_⟩
    exact (@memory_confined _ (Demo.setupWith 64) Demo.hostEnvironment_sound _ _ _ block hblock
      (.ofMemory (Demo.memory []))).2

end Dynarec
