import Dynarec.Proofs.Vm.Execution

/-!
# Reports of runs

What can be seen of a run of a virtual machine is its `Report`. `reports` lists the reports of run
after run, and `reportsUntilStop` those up to the first run that stops or fails.

A block that a run executes **belongs to** the guest code that it was compiled from
(`CompiledBlock.BelongsTo`), and the run is the interpretation of that code (`run_of_belongsTo`).
-/

namespace Dynarec

open Bridge (GuestMemory)
open Codegen (CompiledBlock Translates)
open Guest (Ending ExitReason Image Placed)
open Interpreter (blockDemands demandEvents runBlock)
open Machine (Event)

variable {σ : Type} {setup : Setup σ}

/-- What can be seen of a **run**: how it ended, the guest processor, guest memory and the clock
count afterwards, and what it did to guest memory on the way. -/
structure Report (σ : Type) where
  outcome : Except VmError ExitReason
  cpu : Cpu
  memory : GuestMemory σ
  contextCycles : HostWord
  events : List Event

namespace VirtualMachine

/-- What a run does to guest memory. -/
def runEvents (setup : Setup σ) (vm : VirtualMachine σ) : List Event :=
  match vm.blockAt setup vm.cpu.nextAddress with
  | .error _ => []
  | .ok (block, vm) => vm.executeEvents setup block

/-- The report of a run. -/
def report (setup : Setup σ) (vm : VirtualMachine σ) : Report σ :=
  let (outcome, left) := vm.run setup
  ⟨outcome, left.cpu, left.memory, left.contextCycles, vm.runEvents setup⟩

/-- The reports of **run after run**. -/
def reports (setup : Setup σ) : (runs : Nat) → VirtualMachine σ → List (Report σ)
  | 0, _ => []
  | runs + 1, vm => vm.report setup :: reports setup runs (vm.run setup).2

/-- The reports of run after run, up to the first one that **stops** or fails. -/
def reportsUntilStop (setup : Setup σ) : (limit : Nat) → VirtualMachine σ → List (Report σ)
  | 0, _ => []
  | limit + 1, vm =>
    vm.report setup ::
      match (vm.run setup).1 with
      | .ok .branch | .ok .halt => reportsUntilStop setup limit (vm.run setup).2
      | _ => []

theorem reportsUntilStop_of_stop {vm : VirtualMachine σ} (h : (vm.run setup).1 = .ok .stop)
    (limit : Nat) : vm.reportsUntilStop setup (limit + 1) = [vm.report setup] := by
  rw [reportsUntilStop, h]

theorem reportsUntilStop_of_ok {vm : VirtualMachine σ} {reason : ExitReason}
    (h : (vm.run setup).1 = .ok reason) (hreason : reason ≠ .stop) (limit : Nat) :
    vm.reportsUntilStop setup (limit + 1) =
      vm.report setup :: reportsUntilStop setup limit (vm.run setup).2 := by
  rw [reportsUntilStop, h]
  cases reason with
  | stop => exact absurd rfl hreason
  | _ => rfl

/-- A machine with **no block** compiled. -/
def forget (vm : VirtualMachine σ) : VirtualMachine σ := { vm with cache := .empty }

end VirtualMachine

/-! ### Blocks and the guest code they stand for -/

/-- Whether a compiled block **belongs to** a block of an image. -/
structure Codegen.CompiledBlock.BelongsTo (layout : Bridge.Layout) (image : Image) (start : Address)
    (listing : List Placed) (ending : Ending) (block : CompiledBlock) : Prop where
  reads : image.Reads start.toNat listing ending
  translates : Translates layout start listing ending block

/-- The machine code of a block is the code of the guest block that it belongs to. -/
theorem Codegen.CompiledBlock.BelongsTo.code {layout : Bridge.Layout} {image : Image}
    {start : Address} {listing : List Placed} {ending : Ending} {block : CompiledBlock}
    (h : block.BelongsTo layout image start listing ending) :
    block.program.code =
      (Codegen.trackedBlock layout Codegen.HostFlags.after listing ending).bytes := by
  rw [Codegen.trackedBlock_after]
  exact h.translates.code

namespace VirtualMachine

variable {vm vm' : VirtualMachine σ} {block : CompiledBlock} {start : Address}

/-- Looking up a block changes nothing but the cache. -/
theorem blockAt_ok (h : vm.blockAt setup start = .ok (block, vm')) :
    vm' = { vm with cache := vm'.cache } := by
  rw [blockAt] at h
  split at h
  · cases h
    rfl
  · split at h
    · cases h
    · cases h
      rfl

/-- What a block that is **compiled now** belongs to: the guest code that is read from the window as
it is. -/
theorem belongsTo_of_compile (h : vm.compile setup start = .ok block) :
    ∃ ending, (Codegen.scan setup.config vm.memory.window.image start).outcome = .ok ending ∧
      block.BelongsTo setup.env.layout vm.memory.window.image start
        (Codegen.scan setup.config vm.memory.window.image start).listing ending := by
  rw [compile] at h
  cases hscan : (Codegen.scan setup.config vm.memory.window.image start).outcome with
  | error e =>
    rw [Codegen.compile_of_scan_error hscan] at h
    cases h
  | ok ending =>
    obtain ⟨block', hcompile, htranslates⟩ :=
      Codegen.compile_of_scan setup.env.layout (Nat.le_refl _) hscan
    obtain rfl : block' = block := by
      have hsame := hcompile.symm.trans h
      cases hsame
      rfl
    exact ⟨ending, rfl, Image.reads_of_scan hscan, htranslates⟩

/-- The block that a run executes, if the one in the cache is the one that would be compiled, or if
there is none. -/
theorem blockAt_of_compile (h : vm.compile setup start = .ok block)
    (hcached : ∀ b, vm.cache.find? start = some b → b = block) :
    ∃ vm', vm.blockAt setup start = .ok (block, vm') := by
  rw [blockAt]
  cases hfind : vm.cache.find? start with
  | some b =>
    rw [hcached b hfind]
    exact ⟨vm, rfl⟩
  | none =>
    simp only [h]
    exact ⟨_, rfl⟩

/-- **Executing a block** interprets the guest code that it belongs to, in whatever state the
machine is by then. The guest memory may have changed since the block was compiled. -/
theorem execute_of_belongsTo (hsound : setup.env.Sound) {image : Image} {listing : List Placed}
    {ending : Ending} (h : block.BelongsTo setup.env.layout image start listing ending)
    (vm : VirtualMachine σ) :
    vm.execute setup block =
        vm.after (runBlock setup.interface (BitVec.ofNat 16 ending.cursor) listing vm.entry) ∧
      vm.executeEvents setup block = demandEvents (blockDemands setup.interface listing vm.entry) :=
  ⟨Codegen.execute_of_reads hsound Codegen.Tracking.cautious_after h.reads h.code vm,
    Codegen.executeEvents_of_reads hsound Codegen.Tracking.cautious_after h.reads h.code vm⟩

/-- **A run** interprets the guest code that its block belongs to, and keeps that block in the
cache. -/
theorem run_of_belongsTo (hsound : setup.env.Sound)
    (hblock : vm.blockAt setup vm.cpu.nextAddress = .ok (block, vm')) {image : Image}
    {listing : List Placed} {ending : Ending}
    (h : block.BelongsTo setup.env.layout image start listing ending) :
    vm.run setup =
        vm'.after (runBlock setup.interface (BitVec.ofNat 16 ending.cursor) listing vm.entry) ∧
      vm.runEvents setup = demandEvents (blockDemands setup.interface listing vm.entry) := by
  have hentry : vm'.entry = vm.entry := by
    rw [blockAt_ok hblock]
    rfl
  rw [run, runEvents, hblock, ← hentry]
  exact execute_of_belongsTo hsound h vm'

end VirtualMachine

end Dynarec
