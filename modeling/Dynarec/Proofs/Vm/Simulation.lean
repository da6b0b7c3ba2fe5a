import Dynarec.Proofs.Vm.Reports

/-!
# Virtual machines and interpreting sessions

A virtual machine **simulates** an interpreting session if both agree on the guest processor and
memory, and the machine has compiled exactly the blocks that the session has read. A run keeps this
(`Simulates.run`), so that machine and session report the same, run after run
(`reports_eq_reports`): the same outcome, guest processor, guest memory and clock count, and the
same accesses to guest memory in the same order.
-/

namespace Dynarec

open Bridge (GuestMemory MemoryInterface)
open Codegen (CompiledBlock Config Translates)
open Guest (ExitReason ScanError)
open Interpreter (Demand Listing Session blockDemands demandEvents)
open Machine (Event)

variable {σ : Type} {setup : Setup σ}

/-! ### Reports -/

namespace Interpreter.Session

/-- The interpreter state in which a session enters a block. -/
def entry (s : Session σ) : State σ := .ofCpu s.cpu s.contextCycles s.memory

/-- What a run asks of guest memory. -/
def runDemands (config : Config) (i : MemoryInterface σ) (s : Session σ) :
    List (Demand × HostWord) :=
  match s.blockAt config s.cpu.nextAddress with
  | .error _ => []
  | .ok (l, s) => blockDemands i l.instructions s.entry

/-- How an interpreted run ends, as a machine says it. -/
def vmOutcome : Except ScanError ExitReason → Except VmError ExitReason
  | .ok reason => .ok reason
  | .error e => .error (.compile (.scan e))

/-- The reports of **run after run**. -/
def reports (config : Config) (i : MemoryInterface σ) : (runs : Nat) → Session σ → List (Report σ)
  | 0, _ => []
  | runs + 1, s =>
    let (outcome, after) := s.run config i
    ⟨vmOutcome outcome, after.cpu, after.memory, after.contextCycles,
        demandEvents (s.runDemands config i)⟩ :: reports config i runs after

end Interpreter.Session

/-! ### Simulation -/

/-- Whether a compiled block stands for a block that has been read at a guest address. -/
def Codegen.CompiledBlock.StandsFor (layout : Bridge.Layout) (a : Address) (l : Listing)
    (block : CompiledBlock) : Prop :=
  ∃ image, block.BelongsTo layout image a l.instructions l.ending

/-- Whether a virtual machine **simulates** an interpreting session. -/
structure Simulates (setup : Setup σ) (vm : VirtualMachine σ) (s : Session σ) : Prop where
  cpu : vm.cpu = s.cpu
  memory : vm.memory = s.memory
  contextCycles : vm.contextCycles = s.contextCycles
  /-- No block is cached that has not been read, and the other way round. -/
  uncached : ∀ a, vm.cache.find? a = none ↔ s.blocks.lookup a = none
  cached : ∀ a block l, vm.cache.find? a = some block → s.blocks.lookup a = some l →
    block.StandsFor setup.env.layout a l

namespace Simulates

variable {vm : VirtualMachine σ} {s : Session σ}

theorem entry_eq (h : Simulates setup vm s) : vm.entry = s.entry := by
  rw [VirtualMachine.entry, Session.entry, h.cpu, h.contextCycles, h.memory]

/-- A machine and a session that have not run yet. -/
theorem fresh (cpu : Cpu) (memory : GuestMemory σ) (contextCycles : HostWord) :
    Simulates setup ⟨cpu, memory, contextCycles, .empty⟩ ⟨cpu, memory, contextCycles, []⟩ :=
  ⟨rfl, rfl, rfl, fun _ => ⟨fun _ => rfl, fun _ => rfl⟩, fun _ _ _ h => by cases h⟩

/-- A **new block** on both sides. -/
theorem insert (h : Simulates setup vm s) {a : Address} {block : CompiledBlock} {l : Listing}
    (hblock : block.StandsFor setup.env.layout a l) :
    Simulates setup { vm with cache := vm.cache.insert a block }
      { s with blocks := (a, l) :: s.blocks } where
  cpu := h.cpu
  memory := h.memory
  contextCycles := h.contextCycles
  uncached b := by
    rw [Cache.find?, Cache.insert, List.lookup_cons, List.lookup_cons]
    cases hb : b == a with
    | true => exact ⟨nofun, nofun⟩
    | false => exact h.uncached b
  cached b block' l' hfind hlookup := by
    rw [Cache.find?, Cache.insert, List.lookup_cons] at hfind
    rw [List.lookup_cons] at hlookup
    cases hb : b == a with
    | true =>
      rw [hb] at hfind hlookup
      cases hfind
      cases hlookup
      rw [eq_of_beq hb]
      exact hblock
    | false =>
      rw [hb] at hfind hlookup
      exact h.cached b block' l' hfind hlookup

/-- The **block at a guest address**: known on both sides, read and compiled, or not readable. -/
theorem blockAt (h : Simulates setup vm s) (a : Address) :
    (∃ e, vm.blockAt setup a = .error (.scan e) ∧ s.blockAt setup.config a = .error e) ∨
      ∃ block vm' l s', vm.blockAt setup a = .ok (block, vm') ∧
        s.blockAt setup.config a = .ok (l, s') ∧
        block.StandsFor setup.env.layout a l ∧ Simulates setup vm' s' := by
  rw [VirtualMachine.blockAt, Session.blockAt]
  cases hfind : vm.cache.find? a with
  | some block =>
    cases hlookup : s.blocks.lookup a with
    | some l => exact .inr ⟨block, vm, l, s, rfl, rfl, h.cached a block l hfind hlookup, h⟩
    | none =>
      rw [(h.uncached a).mpr hlookup] at hfind
      cases hfind
  | none =>
    -- both sides read the block from the same guest memory
    have hcompile : vm.compile setup a =
        Codegen.compile setup.config setup.env.layout s.memory.window.image a := by
      rw [VirtualMachine.compile, h.memory]
    rw [(h.uncached a).mp hfind, hcompile, Listing.read]
    cases hscan : (Codegen.scan setup.config s.memory.window.image a).outcome with
    | error e =>
      rw [Codegen.compile_of_scan_error hscan]
      exact .inl ⟨e, rfl, rfl⟩
    | ok ending =>
      obtain ⟨block, hblock, htranslates⟩ :=
        Codegen.compile_of_scan setup.env.layout (Nat.le_refl _) hscan
      rw [hblock]
      have hstands : block.StandsFor setup.env.layout a ⟨_, ending⟩ :=
        ⟨_, Guest.Image.reads_of_scan hscan, htranslates⟩
      exact .inr ⟨block, _, _, _, rfl, rfl, hstands, h.insert hstands⟩

/-- **A run** of the machine is a run of the session. -/
theorem run (hsound : setup.env.Sound) (h : Simulates setup vm s) :
    (vm.run setup).1 = Session.vmOutcome (s.run setup.config setup.interface).1 ∧
      vm.runEvents setup = demandEvents (s.runDemands setup.config setup.interface) ∧
      Simulates setup (vm.run setup).2 (s.run setup.config setup.interface).2 := by
  rw [Session.run, Session.runDemands, ← h.cpu]
  rcases h.blockAt vm.cpu.nextAddress with ⟨e, hvm, hs⟩ | ⟨block, vm', l, s', hvm, hs,
    ⟨image, hl⟩, h'⟩
  · rw [VirtualMachine.run, VirtualMachine.runEvents, hvm, hs]
    exact ⟨rfl, rfl, h⟩
  · obtain ⟨hrun, hevents⟩ := VirtualMachine.run_of_belongsTo hsound hvm hl
    -- reading or compiling a block does not touch the state that it is entered with
    have hentry : vm.entry = s'.entry := by
      rw [← h'.entry_eq, VirtualMachine.blockAt_ok hvm]
      rfl
    rw [hrun, hevents, hentry, hs]
    exact ⟨rfl, rfl, rfl, rfl, rfl, h'.uncached, h'.cached⟩

/-- A machine reports what a session does, **run after run**. -/
theorem reports (hsound : setup.env.Sound) (h : Simulates setup vm s) (runs : Nat) :
    vm.reports setup runs = s.reports setup.config setup.interface runs := by
  induction runs generalizing vm s with
  | zero => rfl
  | succ runs ih =>
    obtain ⟨houtcome, hevents, h'⟩ := h.run hsound
    rw [VirtualMachine.reports, VirtualMachine.report, Session.reports]
    simp only [houtcome, hevents, h'.cpu, h'.memory, h'.contextCycles, ih h']

end Simulates

/-- **Translation preserves meaning.** However a machine starts, with no block compiled yet, and
however many runs it is asked for, its runs are those of the interpreter: the same outcomes, guest
registers, guest memory and clock counts, and the same accesses to guest memory and calls of
handlers, in the same order and with the same arguments. -/
theorem VirtualMachine.reports_eq_interpreter (hsound : setup.env.Sound) (cpu : Cpu)
    (memory : GuestMemory σ) (contextCycles : HostWord) (runs : Nat) :
    (VirtualMachine.mk cpu memory contextCycles .empty).reports setup runs =
      (Session.mk cpu memory contextCycles []).reports setup.config setup.interface runs :=
  (Simulates.fresh cpu memory contextCycles).reports hsound runs

theorem VirtualMachine.reports_eq_interpreter_demo :
    (VirtualMachine.mk .initial (Demo.memory Demo.program) 0 .empty).reports
    (Demo.setupWith 64) 20 =
      (Session.mk .initial (Demo.memory Demo.program) 0 []).reports (Demo.setupWith 64).config
        Demo.interface 20 :=
  VirtualMachine.reports_eq_interpreter Demo.hostEnvironment_sound .initial
    (Demo.memory Demo.program)
    0 20

end Dynarec
