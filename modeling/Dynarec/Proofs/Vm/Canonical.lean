import Dynarec.Proofs.Codegen.Boundaries
import Dynarec.Proofs.Vm.ControlFlow

/-!
# The canonical register file

Whatever words a user puts into the guest processor, the bound registers are canonical wherever the
code of a guest instruction starts, and on every exit. So the words of the guest processor are no
larger than the registers they stand for once a block has been run, and what a word holds above the
bits of its register has no effect on any run (`canonical_register_file`).
-/

namespace Dynarec

open Bridge (GuestMemory)
open Codegen (Canonical CompiledBlock Config Mirrors codeStart trackedBlock)
open Guest (Ending ExitReason Image Placed)
open Interpreter (steps)
open Machine (Visit)

variable {σ : Type}

/-! ### Words of the guest processor -/

namespace Cpu

/-- Whether the words of a guest processor are **no larger** than the registers they stand for. -/
structure IsCanonical (c : Cpu) : Prop where
  a : c.a.toNat < 0x100
  f : c.f = 0x00 ∨ c.f = 0x10 ∨ c.f = 0x80 ∨ c.f = 0x90
  bc : c.bc.toNat < 0x10000
  de : c.de.toNat < 0x10000
  hl : c.hl.toNat < 0x10000
  sp : c.sp.toNat < 0x10000
  pc : c.pc.toNat < 0x10000

/-- Whether two guest processors **agree** in the bits of the guest registers. -/
structure Agrees (c c' : Cpu) : Prop where
  a : c.a.setWidth 8 = c'.a.setWidth 8
  f : c.f &&& 0x90 = c'.f &&& 0x90
  bc : c.bc.setWidth 16 = c'.bc.setWidth 16
  de : c.de.setWidth 16 = c'.de.setWidth 16
  hl : c.hl.setWidth 16 = c'.hl.setWidth 16
  sp : c.sp.setWidth 16 = c'.sp.setWidth 16
  pc : c.pc.setWidth 16 = c'.pc.setWidth 16
  cycles : c.cycles = c'.cycles

/-- Bits of F that the mask of Z and C leaves. -/
theorem Agrees.flag {c c' : Cpu} (h : c.Agrees c') {k : Nat}
    (hk : (0x90 : HostWord).getLsbD k = true) :
    c.f.getLsbD k = c'.f.getLsbD k := by
  have hbit := congrArg (·.getLsbD k) h.f
  simpa only [BitVec.getLsbD_and, hk, Bool.and_true] using hbit

/-- **Entering** a block looks at the bits of the guest registers only. -/
theorem Agrees.enter_eq {c c' : Cpu} (h : c.Agrees c') (env : Machine.Environment)
    (contextCycles : HostWord) (memory : GuestMemory σ) :
    c.enter env contextCycles memory = c'.enter env contextCycles memory := by
  have hlow {w : Nat} {v v' : HostWord} (hv : v.setWidth w = v'.setWidth w) :
      lowBits w v = lowBits w v' := congrArg (·.setWidth 64) hv
  have hshadow : shadowOfGuest (lowBits 8 c.f) = shadowOfGuest (lowBits 8 c'.f) := by
    rw [Codegen.shadowOfGuest_eq, Codegen.shadowOfGuest_eq, h.flag (k := 7) (by decide),
      h.flag (k := 4) (by decide)]
  simp only [enter, registers, hlow h.a, hlow h.bc, hlow h.de, hlow h.hl, hlow h.sp, h.cycles,
    hshadow]

end Cpu

/-- The guest processor **on an exit**. -/
theorem Interpreter.State.isCanonical_toCpu (g : Interpreter.State σ) (pc : Address) :
    (g.toCpu pc).IsCanonical where
  a := Codegen.toNat_setWidth_lt (by decide) g.a.isLt
  f := by
    have hflags : (g.toCpu pc).f = g.f.setWidth 64 := rfl
    rw [hflags, Interpreter.State.f]
    cases g.zero <;> cases g.carry <;> decide
  bc := Codegen.toNat_setWidth_lt (by decide) g.bc.isLt
  de := Codegen.toNat_setWidth_lt (by decide) g.de.isLt
  hl := Codegen.toNat_setWidth_lt (by decide) g.hl.isLt
  sp := Codegen.toNat_setWidth_lt (by decide) g.sp.isLt
  pc := Codegen.toNat_setWidth_lt (by decide) pc.isLt

/-! ### Executing a block -/

namespace VirtualMachine

variable {setup : Setup σ}

/-- A machine with **another guest processor**. -/
def withCpu (vm : VirtualMachine σ) (cpu : Cpu) : VirtualMachine σ := { vm with cpu }

section Execute

variable (hsound : setup.env.Sound) {config : Config} {image : Image} {start : Address}
  {block : CompiledBlock} (h : Codegen.compile config setup.env.layout image start = .ok block)
  (vm : VirtualMachine σ)

include hsound h

/-- **At the boundaries** of guest instructions, the machine stands for the interpreter. -/
theorem mirrors_of_visit {v : Visit σ} (hv : v ∈ vm.visits setup block) {ps qs : List Placed}
    (hlisting : (Codegen.scan config image start).listing = ps ++ qs)
    (ho : v.offset = codeStart setup.env.layout ps) :
    ∃ g, steps setup.interface ps vm.entry = (g, none) ∧ Mirrors setup.env g v.state := by
  obtain ⟨listing, ending, hscan, hreads, hcode⟩ := Codegen.reads_of_compile h
  have hwell := hreads.wellFormed
  rw [hscan] at hlisting
  obtain rfl : listing = ps ++ qs := hlisting
  rw [Codegen.visits_of_reads hsound Codegen.Tracking.cautious_after hreads hcode] at hv
  rw [codeStart, ← Codegen.trackedCode_after] at ho
  exact Codegen.mirrors_of_boundary hsound Codegen.Tracking.cautious_after
    (Codegen.mirrors_enter setup.env vm.cpu vm.contextCycles vm.memory)
    (fun p hp => hwell p (List.mem_append_left _ hp)) hv ho

/-- The boundary before an instruction **is visited** whenever the interpreter gets there. -/
theorem exists_visit_of_boundary {ps qs : List Placed} (hqs : qs ≠ [])
    (hlisting : (Codegen.scan config image start).listing = ps ++ qs)
    (hsteps : (steps setup.interface ps vm.entry).2 = none) :
    ∃ v ∈ vm.visits setup block, v.offset = codeStart setup.env.layout ps := by
  obtain ⟨listing, ending, hscan, hreads, hcode⟩ := Codegen.reads_of_compile h
  have hwell := hreads.wellFormed
  obtain ⟨q, qs, rfl⟩ := List.exists_cons_of_ne_nil hqs
  rw [hscan] at hlisting
  obtain rfl : listing = ps ++ q :: qs := hlisting
  obtain ⟨v, hv, ho, -⟩ := Codegen.exists_visit_of_steps (i := setup.interface) hsound
    Codegen.Tracking.cautious_after
    (Codegen.mirrors_enter setup.env vm.cpu vm.contextCycles vm.memory)
    Codegen.of_clobbered_eq_synced (fun p hp => hwell p (List.mem_append_left _ hp))
    (Prod.ext rfl hsteps) q qs 0
  rw [Nat.zero_add, Codegen.trackedCode_after, ← codeStart] at ho
  refine ⟨v, ?_, ho⟩
  rw [Codegen.visits_of_reads hsound Codegen.Tracking.cautious_after hreads hcode]
  exact Machine.mem_visits_append_left _ hv

/-- **On every exit**, the bound registers are canonical. -/
theorem canonical_of_ret {v : Visit σ} (hv : v ∈ vm.visits setup block)
    (hret : v.instruction = .ret) : Canonical setup.env.layout v.state.registers := by
  obtain ⟨listing, ending, -, hreads, hcode⟩ := Codegen.reads_of_compile h
  obtain ⟨left, reason, pc, g, htrace, hreturning, hmirrors, -⟩ :=
    Codegen.returning_of_reads (i := setup.interface) hsound Codegen.Tracking.cautious_after hreads
      hcode (Codegen.mirrors_enter setup.env vm.cpu vm.contextCycles vm.memory)
  rw [visits, htrace] at hv
  rw [hreturning.state_of_ret hv hret]
  exact hmirrors.canonical

/-- The guest processor **after a block** is canonical. -/
theorem isCanonical_execute : (vm.execute setup block).2.cpu.IsCanonical := by
  obtain ⟨listing, ending, -, hreads, hcode⟩ := Codegen.reads_of_compile h
  rw [Codegen.execute_of_reads hsound Codegen.Tracking.cautious_after hreads hcode]
  exact Interpreter.State.isCanonical_toCpu _ _

/-- A block does the same for guest processors that **agree**. -/
theorem execute_of_agrees {cpu : Cpu} (hcpu : cpu.Agrees vm.cpu) :
    (vm.withCpu cpu).execute setup block = vm.execute setup block ∧
      (vm.withCpu cpu).executeEvents setup block = vm.executeEvents setup block := by
  have henter := hcpu.enter_eq setup.env vm.contextCycles vm.memory
  rw [withCpu]
  refine ⟨?_, by rw [executeEvents, visits, henter]; rfl⟩
  obtain ⟨listing, ending, -, hreads, hcode⟩ := Codegen.reads_of_compile h
  obtain ⟨left, reason, pc, g, htrace, -⟩ :=
    Codegen.returning_of_reads (i := setup.interface) hsound Codegen.Tracking.cautious_after hreads
      hcode (Codegen.mirrors_enter setup.env vm.cpu vm.contextCycles vm.memory)
  have hrun := (Machine.trace_snd _ _ _ _).symm.trans (congrArg Prod.snd htrace)
  rw [execute, execute, henter]
  simp only [hrun]

end Execute

/-! ### Running the next block -/

/-- Looking up a block does not look at the guest processor. -/
theorem blockAt_withCpu (setup : Setup σ) (vm : VirtualMachine σ) (cpu : Cpu) (start : Address) :
    (vm.withCpu cpu).blockAt setup start =
      (vm.blockAt setup start).map fun found => (found.1, found.2.withCpu cpu) := by
  simp only [blockAt, withCpu, compile]
  cases vm.cache.find? start with
  | some block => rfl
  | none => cases Codegen.compile setup.config setup.env.layout vm.memory.window.image start <;> rfl

end VirtualMachine

namespace Workbench

variable {setup : Setup σ}

/-- **Guest processors that agree** have the same runs: no block can be compiled for either of them,
for the same reason, or a block is run with the same end, the same machine afterwards and the same
effect on guest memory. -/
theorem run_of_agrees (hsound : setup.env.Sound) (memory : GuestMemory σ) (history : List Action)
    {c c' : Cpu} (h : c.Agrees c') :
    let vm := ((ofMemory memory).after setup history).vm
    (∃ e, ((vm.withCpu c).run setup).1 = .error (.compile e) ∧
        ((vm.withCpu c').run setup).1 = .error (.compile e)) ∨
      ∃ reason, ((vm.withCpu c).run setup).1 = .ok reason ∧
        (vm.withCpu c).run setup = (vm.withCpu c').run setup ∧
        (vm.withCpu c).runEvents setup = (vm.withCpu c').runEvents setup := by
  intro vm
  have hnext : c'.nextAddress = c.nextAddress := h.pc.symm
  have hblock := VirtualMachine.blockAt_withCpu setup vm c c.nextAddress
  have hblock' := VirtualMachine.blockAt_withCpu setup vm c' c'.nextAddress
  cases hfound : vm.blockAt setup c.nextAddress with
  | error e =>
    rw [hfound] at hblock
    rw [hnext, hfound, ← hnext] at hblock'
    exact .inl ⟨e, congrArg Prod.fst (VirtualMachine.run_of_blockAt_error hblock).1,
      congrArg Prod.fst (VirtualMachine.run_of_blockAt_error hblock').1⟩
  | ok found =>
    obtain ⟨block, vm'⟩ := found
    rw [hfound] at hblock
    rw [hnext, hfound, ← hnext] at hblock'
    obtain ⟨hrun, hevents⟩ := VirtualMachine.run_of_blockAt hblock
    obtain ⟨hrun', hevents'⟩ := VirtualMachine.run_of_blockAt hblock'
    -- the block was compiled at some point of the history
    have hexecuted :
        ((ofMemory memory).after setup (history ++ [.setCpu c'])).block? setup .run =
          some block := by
      rw [after_snoc]
      exact congrArg (fun e => (Except.toOption e).map Prod.fst) hblock'
    obtain ⟨before, since, start, -, -, hcompile⟩ := provenance rfl rfl hexecuted
    obtain ⟨reason, hreason⟩ :=
      VirtualMachine.execute_ok_of_compile hsound hcompile (vm.withCpu c)
    obtain ⟨hexecute, hexecuteEvents⟩ :=
      VirtualMachine.execute_of_agrees hsound hcompile (vm.withCpu c') h
    replace hexecute : (vm.withCpu c).execute setup block = (vm.withCpu c').execute setup block :=
      hexecute
    refine .inr ⟨reason, (congrArg Prod.fst hrun).trans hreason, ?_,
      hevents.trans (hexecuteEvents.trans hevents'.symm)⟩
    rw [hrun, hrun', hexecute]
    rfl

/-- The guest processor **after an operation** that runs a block is canonical. -/
theorem isCanonical_next (hsound : setup.env.Sound) (memory : GuestMemory σ) (history : List Action)
    {action : Action} {reason : ExitReason}
    (h : (((ofMemory memory).after setup history).perform setup action).1 = .ran (.ok reason)) :
    (((ofMemory memory).after setup history).next setup action).vm.cpu.IsCanonical := by
  cases hblock : ((ofMemory memory).after setup history).block? setup action with
  | none => exact absurd h ((perform_of_block?_eq_none hblock).2.2 reason)
  | some block =>
    obtain ⟨before, since, start, -, -, hcompile⟩ := provenance rfl rfl hblock
    rw [(perform_of_block? hblock).1]
    exact VirtualMachine.isCanonical_execute hsound hcompile _

end Workbench

/-- **The canonical register file.** Take a compiled block and a machine with any words in its guest
processor. Wherever the code of a guest instruction of the block starts, or the exit after them, and
on every return, the bound registers are canonical; and the code of every guest instruction that the
interpreter gets to is got to. The guest processor is canonical afterwards, also after every run in
any history of a machine. And guest processors that agree in the bits of the guest registers have
the same runs. -/
theorem canonical_register_file {setup : Setup σ} (hsound : setup.env.Sound) :
    (∀ config image start block,
      Codegen.compile config setup.env.layout image start = .ok block →
        ∀ vm : VirtualMachine σ,
          (∀ ps qs, (Codegen.scan config image start).listing = ps ++ qs →
            (∀ v ∈ vm.visits setup block, v.offset = codeStart setup.env.layout ps →
              Canonical setup.env.layout v.state.registers) ∧
            (qs ≠ [] → (steps setup.interface ps vm.entry).2 = none →
              ∃ v ∈ vm.visits setup block, v.offset = codeStart setup.env.layout ps)) ∧
          (∀ v ∈ vm.visits setup block, v.instruction = .ret →
            Canonical setup.env.layout v.state.registers) ∧
          (∃ reason, (vm.execute setup block).1 = .ok reason) ∧
          (vm.execute setup block).2.cpu.IsCanonical ∧
          ∀ cpu : Cpu, cpu.Agrees vm.cpu →
            (vm.withCpu cpu).execute setup block = vm.execute setup block ∧
              (vm.withCpu cpu).executeEvents setup block = vm.executeEvents setup block) ∧
    ∀ (memory : GuestMemory σ) (history : List Action),
      let w := (Workbench.ofMemory memory).after setup history
      (∀ action reason, (w.perform setup action).1 = .ran (.ok reason) →
        (w.next setup action).vm.cpu.IsCanonical) ∧
      ∀ c c' : Cpu, c.Agrees c' →
        (∃ e, ((w.vm.withCpu c).run setup).1 = .error (.compile e) ∧
            ((w.vm.withCpu c').run setup).1 = .error (.compile e)) ∨
          ∃ reason, ((w.vm.withCpu c).run setup).1 = .ok reason ∧
            (w.vm.withCpu c).run setup = (w.vm.withCpu c').run setup ∧
            (w.vm.withCpu c).runEvents setup = (w.vm.withCpu c').runEvents setup := by
  refine ⟨fun config image start block h vm => ⟨fun ps qs hlisting => ⟨fun v hv ho => ?_,
      fun hqs hsteps =>
        VirtualMachine.exists_visit_of_boundary hsound h vm hqs hlisting hsteps⟩,
    fun v hv hret => VirtualMachine.canonical_of_ret hsound h vm hv hret,
    VirtualMachine.execute_ok_of_compile hsound h vm,
    VirtualMachine.isCanonical_execute hsound h vm,
    fun cpu hcpu => VirtualMachine.execute_of_agrees hsound h vm hcpu⟩,
    fun memory history => ⟨fun action reason hran =>
      Workbench.isCanonical_next hsound memory history hran,
    fun c c' hagrees => Workbench.run_of_agrees hsound memory history hagrees⟩⟩
  obtain ⟨g, -, hmirrors⟩ := VirtualMachine.mirrors_of_visit hsound h vm hv hlisting ho
  exact hmirrors.canonical

/-- A guest processor whose words hold more than its registers. -/
def Demo.overfull : Cpu := ⟨0x1FF, 0xFF, 0x12345, 0, 0, 0xFFFF0002, 0x30000, 7⟩

/-- The guest processor with the same registers and nothing else in its words. -/
def Demo.trimmed : Cpu := ⟨0xFF, 0x90, 0x2345, 0, 0, 2, 0, 7⟩

theorem Demo.agrees_overfull : overfull.Agrees trimmed where
  a := by decide
  f := by decide
  bc := by decide
  de := by decide
  hl := by decide
  sp := by decide
  pc := by decide
  cycles := rfl

theorem canonical_register_file_overfull :
    ∃ block, Codegen.compile ⟨64, false⟩ Demo.hostEnvironment.layout Demo.calling 0 =
        .ok block ∧
      let vm : VirtualMachine Demo.Messages := ⟨Demo.trimmed, Demo.memory [], 0, .empty⟩
      (∃ v ∈ vm.visits (Demo.setupWith 64) block, v.offset = 0 ∧
        Canonical Demo.hostEnvironment.layout v.state.registers) ∧
      (vm.execute (Demo.setupWith 64) block).2.cpu.IsCanonical ∧
      (vm.withCpu Demo.overfull).execute (Demo.setupWith 64) block =
        vm.execute (Demo.setupWith 64) block := by
  have hscan : (Codegen.scan ⟨64, false⟩ Demo.calling 0).outcome = .ok ⟨3, false⟩ := rfl
  obtain ⟨block, hblock, -⟩ := Codegen.compile_of_scan Demo.hostEnvironment.layout
    (show Demo.calling.size ≤ 0x10000 by decide) hscan
  obtain ⟨hboundaries, -, -, hcanonical, hagrees⟩ :=
    (@canonical_register_file _ (Demo.setupWith 64) Demo.hostEnvironment_sound).1 _ _ _ _ hblock
      ⟨Demo.trimmed, Demo.memory [], 0, .empty⟩
  obtain ⟨hstart, hvisited⟩ := hboundaries [] _ rfl
  obtain ⟨v, hv, ho⟩ := hvisited (List.cons_ne_nil _ _) rfl
  exact ⟨block, hblock, ⟨v, hv, ho, hstart v hv ho⟩, hcanonical,
    (hagrees _ Demo.agrees_overfull).1⟩

end Dynarec
