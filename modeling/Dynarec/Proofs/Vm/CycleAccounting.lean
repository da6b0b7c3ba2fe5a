import Dynarec.Proofs.Codegen.Calls
import Dynarec.Proofs.Vm.History
import Dynarec.Proofs.Vm.Simulation

/-!
# Cycle accounting

The clock advances by what the executed instructions cost, whichever way memory is accessed and
whatever handlers leave in the host registers. A handler that is called by the k-th instruction of a
run is told the clock count at entry plus the base cycles of the first k instructions, and the extra
cycles of that instruction if it is a conditional call or return that is taken. What the execution
context holds between two operations is the clock count of the last call in the life of the machine
(`cycle_accounting`).
-/

namespace Dynarec

open Bridge (GuestMemory Request)
open Codegen (CompiledBlock codeStart)
open Guest (Ending ExitReason Image Placed)
open Interpreter (baseCycles execution exitCycles takenCycles)
open Machine (Visit eventsOf lastCycles lastCycles_append)

variable {σ : Type} {setup : Setup σ}

namespace VirtualMachine

/-! ### Executing a block -/

section Execute

variable (hsound : setup.env.Sound) {image : Image} {start : Address} {block : CompiledBlock}
  {listing : List Placed} {ending : Ending}
  (h : block.BelongsTo setup.env.layout image start listing ending) (vm : VirtualMachine σ)

include hsound h

/-- **The clock after a block.** -/
theorem cycles_execute :
    (vm.execute setup block).2.cpu.cycles =
      vm.cpu.cycles + BitVec.ofNat 64 (baseCycles (execution setup.interface listing vm.entry) +
        exitCycles (execution setup.interface listing vm.entry)) := by
  rw [(execute_of_belongsTo hsound h vm).1]
  exact Interpreter.cycles_runBlock _ listing vm.entry

/-- **The execution context after a block** holds the clock count of the last call. -/
theorem contextCycles_execute :
    (vm.execute setup block).2.contextCycles =
      lastCycles vm.contextCycles (vm.executeEvents setup block) := by
  obtain ⟨hexecute, hevents⟩ := execute_of_belongsTo hsound h vm
  rw [hexecute, hevents]
  exact Interpreter.contextCycles_runBlock _ listing vm.entry

/-- **The clock count that a handler is told** when a block calls it. -/
theorem cycles_of_call {v : Visit σ} (hv : v ∈ vm.visits setup block) {request : Request}
    {cycles : HostWord} (hcall : .call request cycles ∈ eventsOf setup.env v.state v.instruction) :
    ∃ k p s, (execution setup.interface listing vm.entry)[k]? = some (p, s) ∧
      codeStart setup.env.layout (listing.take k) ≤ v.offset ∧
      v.offset < codeStart setup.env.layout (listing.take (k + 1)) ∧
      cycles = vm.cpu.cycles +
        BitVec.ofNat 64 (baseCycles ((execution setup.interface listing vm.entry).take (k + 1)) +
          takenCycles p.instruction.operation s) := by
  have hcautious := Codegen.Tracking.cautious_after
  rw [Codegen.visits_of_reads hsound hcautious h.reads h.code] at hv
  obtain ⟨k, p, s, hk, hle, hlt, hcycles⟩ := Codegen.call_trackedBlock hsound hcautious h.reads
    (Codegen.mirrors_enter setup.env vm.cpu vm.contextCycles vm.memory) hv hcall
  rw [Codegen.trackedCode_after] at hle hlt
  exact ⟨k, p, s, hk, hle, hlt, hcycles.trans (Interpreter.endCycles_of_execution hk)⟩

end Execute

end VirtualMachine

/-! ### Histories -/

namespace Workbench

/-- The guest instructions of the block at a guest address. -/
def listingAt (setup : Setup σ) (w : Workbench σ) (start : Address) : List Placed :=
  (Codegen.scan setup.config w.window.image start).listing

/-- **The execution context** holds the clock count of the last call in the life of a machine. -/
theorem contextCycles_after (hsound : setup.env.Sound) (memory : GuestMemory σ)
    (history : List Action) :
    ((ofMemory memory).after setup history).vm.contextCycles =
      lastCycles 0 (((ofMemory memory).outcomes setup history).flatMap (·.events)) := by
  induction history using List.reverseRecOn with
  | nil => rfl
  | append_singleton history action ih =>
    rw [after_snoc, outcomes_append, List.flatMap_append, lastCycles_append, ← ih]
    have hevents : (((ofMemory memory).after setup history).outcomes setup [action]).flatMap
        (·.events) = ((ofMemory memory).after setup history).events setup action :=
      List.append_nil _
    rw [hevents]
    cases hblock : ((ofMemory memory).after setup history).block? setup action with
    | none =>
      obtain ⟨hcycles, hnone, -⟩ := perform_of_block?_eq_none hblock
      rw [hcycles, hnone, Machine.lastCycles_nil]
    | some block =>
      obtain ⟨_, _, _, _, hbelongs⟩ := belongsTo_of_block? rfl rfl hblock
      obtain ⟨-, hcycles, hblockEvents⟩ := perform_of_block? hblock
      rw [hcycles, hblockEvents]
      exact VirtualMachine.contextCycles_execute hsound hbelongs _

/-- **Cycle accounting.** Take a machine after any history. Its execution context holds the clock
count of the last call of a handler, or 0 if there was none. Take any operation that runs a block
with success. The block was compiled at some point of the history, and `executed` are its guest
instructions that the operation executes. Then the clock advances by the base cycles of all of them
and the extra cycles of the conditional branch by which the block is left, if it is. And every call
of a handler is made in the code of an executed instruction, say the k-th one, and told the clock
count at entry plus the base cycles of the first k instructions and the extra cycles of the k-th one
if it is a conditional branch that is taken. -/
theorem cycle_accounting (hsound : setup.env.Sound) (memory : GuestMemory σ)
    (history : List Action) :
    let w := (ofMemory memory).after setup history
    w.vm.contextCycles =
        lastCycles 0 (((ofMemory memory).outcomes setup history).flatMap (·.events)) ∧
      ∀ action reason, (w.perform setup action).1 = .ran (.ok reason) →
        ∃ block before since start, w.block? setup action = some block ∧
          history = before ++ since ∧ (action = .run → start = w.vm.cpu.nextAddress) ∧
          ((ofMemory memory).after setup before).vm.compile setup start = .ok block ∧
          let listing := ((ofMemory memory).after setup before).listingAt setup start
          let executed := execution setup.interface listing w.vm.entry
          (w.next setup action).vm.cpu.cycles =
              w.vm.cpu.cycles + BitVec.ofNat 64 (baseCycles executed + exitCycles executed) ∧
            w.events setup action = Machine.events setup.env (w.vm.visits setup block) ∧
            ∀ v ∈ w.vm.visits setup block, ∀ request cycles,
              .call request cycles ∈ eventsOf setup.env v.state v.instruction →
                ∃ k p s, executed[k]? = some (p, s) ∧
                  codeStart setup.env.layout (listing.take k) ≤ v.offset ∧
                  v.offset < codeStart setup.env.layout (listing.take (k + 1)) ∧
                  cycles = w.vm.cpu.cycles +
                    BitVec.ofNat 64 (baseCycles (executed.take (k + 1)) +
                      takenCycles p.instruction.operation s) := by
  intro w
  refine ⟨contextCycles_after hsound memory history, fun action reason hran => ?_⟩
  cases hblock : w.block? setup action with
  | none => exact absurd hran ((perform_of_block?_eq_none hblock).2.2 reason)
  | some block =>
    -- the block stands for guest code that was there when it was compiled
    obtain ⟨before, since, start, hsplit, hstart, hcompile⟩ := provenance rfl rfl hblock
    obtain ⟨ending, -, hbelongs⟩ := VirtualMachine.belongsTo_of_compile hcompile
    obtain ⟨hcpu, -, hevents⟩ := perform_of_block? hblock
    refine ⟨block, before, since, start, rfl, hsplit, hstart, hcompile, ?_, hevents, ?_⟩
    · rw [hcpu]
      exact VirtualMachine.cycles_execute hsound hbelongs w.vm
    · intro v hv request cycles hcall
      exact VirtualMachine.cycles_of_call hsound hbelongs w.vm hv hcall

/-- A machine with a program that sends A down the serial line and halts. -/
def sending : Workbench Demo.Messages := ofMemory (Demo.memory [0xE0, 0x01, 0x76])

theorem cycle_accounting_sending :
    (sending.perform (Demo.setupWith 64) .run).1 = .ran (.ok .halt) ∧
      (sending.next (Demo.setupWith 64) .run).vm.cpu.cycles = 16 ∧
      (sending.next (Demo.setupWith 64) .run).vm.contextCycles = 12 := by
  obtain ⟨houtcome, hevents, -⟩ := (@Simulates.fresh _ (Demo.setupWith 64) .initial
    (Demo.memory [0xE0, 0x01, 0x76]) 0).run Demo.hostEnvironment_sound
  have hran : (sending.perform (Demo.setupWith 64) .run).1 = .ran (.ok .halt) :=
    congrArg Answer.ran (houtcome.trans rfl)
  have hhistory := @cycle_accounting _ (Demo.setupWith 64) Demo.hostEnvironment_sound
    (Demo.memory [0xE0, 0x01, 0x76])
  rw [← sending] at hhistory
  refine ⟨hran, ?_, ?_⟩
  · obtain ⟨block, before, since, start, -, hsplit, hstart, -, hcycles, -⟩ :=
      (hhistory []).2 .run .halt hran
    obtain ⟨rfl, rfl⟩ := List.nil_eq_append_iff.mp hsplit
    obtain rfl := hstart rfl
    exact hcycles.trans rfl
  · have hcontext := (hhistory [.run]).1
    have hcalls : (sending.outcomes (Demo.setupWith 64) [.run]).flatMap (·.events) =
        [.call (.write8 0xFF01 0) 12] := (List.append_nil _).trans (hevents.trans rfl)
    rw [hcalls] at hcontext
    exact hcontext

end Workbench

end Dynarec
