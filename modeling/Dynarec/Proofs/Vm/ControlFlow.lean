import Dynarec.Proofs.Codegen.Canonical
import Dynarec.Proofs.Machine.Depth
import Dynarec.Proofs.Vm.History

/-!
# Host control flow

A compiled block is a disciplined piece of host code. Entered with canonical registers it executes
instructions of its disassembly from the first one on, each at most once and in that order, and ends
with a return to where it was called from, whatever handlers do in the meantime. On the way it
writes to no word of the host stack but the two below the return address, and calls handlers with an
aligned stack. It returns the number of an exit reason and a guest address, so that no machine ever
reports an invalid exit (`host_control_flow`).
-/

namespace Dynarec

open Bridge (GuestMemory MemoryInterface)
open Codegen (Canonical CompiledBlock Config Tracking blockCode trackedBlock)
open Guest (Ending Image Placed)
open Host (Entry Program disassemble)
open Machine (Environment State Visit trace execute locate written?)

variable {σ : Type}

/-! ### Disciplined runs -/

/-- Whether a run through a program that a listing disassembles is **disciplined**: `visits` are the
instructions that are executed, and `left` is the state in which the program is left. -/
structure Machine.Disciplined (env : Environment) (i : MemoryInterface σ) (p : Program)
    (listing : List Entry) (visits : List (Visit σ)) (left : State σ) : Prop where
  /-- What is executed is listed, in this order. -/
  listed : (visits.map Visit.entry).Sublist listing
  count : visits.length ≤ listing.length
  /-- Jumps go forward, to the start of an instruction. -/
  jumps : ∀ v ∈ visits, ∀ d t, execute env i v.state v.instruction = .ok (.jump d, t) →
    ∃ n, p.fetch v.offset = some (v.instruction, n) ∧ ∃ e ∈ listing,
      (e.offset : Int) = (v.offset + n : Nat) + d.toInt ∧ v.offset < e.offset
  /-- The last instruction is a return, with the stack pointer as on entry. -/
  returns : ∃ v, visits.getLast? = some v ∧ v.instruction = .ret ∧ v.state = left
  stackPointer : left.registers.get .rsp = env.stackTop
  exitCode : ((left.registers.get .rax).setWidth 32).toNat ≤ 2
  target : ((left.registers.get .rdx).setWidth 32).toNat < 0x10000
  /-- Handlers are called with an aligned stack. -/
  aligned : ∀ v ∈ visits, ∀ callee, v.instruction = .call callee →
    (v.state.registers.get .rsp).toNat % 16 = 0
  /-- What is written lies in the window or in the execution context, or below the return address
  on the host stack. -/
  written : ∀ v ∈ visits, ∀ a n, written? v.state v.instruction = some (a, n) →
    (locate env.layout n a).isSome = true ∨
      n = 8 ∧ (a = env.stackTop - 8 ∨ a = env.stackTop - 16)

namespace Codegen

variable {env : Environment} {i : MemoryInterface σ} {track : Tracking} {image : Image}
  {cursor : Nat} {listing : List Placed} {ending : Ending} {block : CompiledBlock}

theorem toNat_mod_sixteen {v : HostWord} (h : v.setWidth 4 = 0#4) : v.toNat % 16 = 0 := by
  have hlow := congrArg BitVec.toNat h
  rwa [BitVec.toNat_setWidth] at hlow

/-- A run through the code of a block **returns**, in a state that stands for one of the
interpreter, and its visits are those on the path through the code. -/
theorem returning_of_reads (hsound : env.Sound) (htrack : track.Cautious)
    (hreads : image.Reads cursor listing ending) {p : Program}
    (hcode : p.code = (trackedBlock env.layout track listing ending).bytes) {s : State σ}
    {g : Interpreter.State σ} (h : Mirrors env g s) :
    ∃ left reason pc g',
      trace env i p s =
        (((trackedBlock env.layout track listing ending).path env i 0 s).visits, .ok left) ∧
      Machine.Returning env i p 0 s
        ((trackedBlock env.layout track listing ending).path env i 0 s).visits left ∧
      Mirrors env g' left ∧ Left reason pc left := by
  obtain ⟨left, hyields, hmirrors, hleft⟩ :=
    yields_trackedBlock (i := i) hsound htrack hreads h
  have htrace :=
    Machine.trace_eq_path (fits_trackedBlock env.layout track listing ending) hcode (hyields 0).1
  exact ⟨left, _, _, _, htrace, Machine.returning_of_traceFrom htrace, hmirrors, hleft⟩

/-- **Runs through the code of a block** are disciplined: each part of the discipline is a property
of the path or of the run, and put together here. -/
theorem disciplined_of_reads (hsound : env.Sound) (htrack : track.Cautious)
    (hreads : image.Reads cursor listing ending) {p : Program}
    (hcode : p.code = (trackedBlock env.layout track listing ending).bytes) {s : State σ}
    {g : Interpreter.State σ} (h : Mirrors env g s) :
    ∃ visits left, trace env i p s = (visits, .ok left) ∧
      Machine.Disciplined env i p ((trackedBlock env.layout track listing ending).entries 0) visits
        left := by
  obtain ⟨left, reason, pc, g', htrace, hreturning, hmirrors, hleft⟩ :=
    returning_of_reads (i := i) hsound htrack hreads hcode h
  have hlisted := Machine.listed_path env i (trackedBlock env.layout track listing ending) 0 s
  have hshallow := Machine.shallow_path env i
    (tame_trackedBlock env.layout track listing ending).keepsStack 0 h.stack
  refine ⟨_, left, htrace, hlisted, ?_, fun v hv d t hjump => ?_, hreturning.getLast?, hmirrors.rsp,
    ?_, ?_, fun v hv callee hcallee => ?_, fun v hv a n hwritten => ?_⟩
  · simpa using hlisted.length_le
  · -- the next visit is listed, and listed later
    obtain ⟨before, after, hsplit⟩ := List.append_of_mem hv
    obtain ⟨n, w, rest, hfetch, rfl, htarget⟩ := hreturning.jump_next hsplit hjump
    have hw : w.entry ∈ (trackedBlock env.layout track listing ending).entries 0 :=
      hlisted.subset (List.mem_map_of_mem (by rw [hsplit]; simp))
    have hlater : v.offset < w.offset := by
      have hordered := Assembly.Code.ordered_entries
        (fits_trackedBlock env.layout track listing ending) 0
      have hincreasing := hordered.increasing.sublist hlisted
      rw [hsplit, List.map_append] at hincreasing
      exact List.rel_of_pairwise_cons (List.pairwise_append.mp hincreasing).2.1 List.mem_cons_self
    exact ⟨n, hfetch, w.entry, hw, htarget, hlater⟩
  · rw [hleft.reason]
    cases reason <;> decide
  · rw [hleft.target, BitVec.setWidth_setWidth_of_le _ (by decide),
      BitVec.toNat_setWidth_of_le (by decide)]
    exact BitVec.isLt _
  · obtain ⟨flow, t, hexecute⟩ := hreturning.execute_ok hv
    rw [hcallee] at hexecute
    obtain ⟨handler, hcall⟩ := Machine.callHandler_of_execute hexecute
    exact toNat_mod_sixteen (Machine.stack_callHandler hcall).2.2
  · obtain ⟨flow, t, hexecute⟩ := hreturning.execute_ok hv
    obtain ⟨depth, hdepth⟩ := hshallow.visits v hv
    exact Machine.written_below hexecute hdepth hwritten

/-- The disassembly of a compiled block has the entries of its structured code, and no byte is left
over. -/
theorem disassemble_of_compile {layout : Bridge.Layout} {config : Config} {start : Address}
    (h : compile config layout image start = .ok block) :
    ∃ listing ending, image.Reads start.toNat listing ending ∧
      block.program.code = (trackedBlock layout HostFlags.after listing ending).bytes ∧
      disassemble block.code =
        some ((trackedBlock layout HostFlags.after listing ending).entries 0) := by
  obtain ⟨listing, ending, -, hreads, hcode⟩ := reads_of_compile h
  refine ⟨listing, ending, hreads, hcode, ?_⟩
  rw [CompiledBlock.code, hcode]
  exact Assembly.Code.disassemble_bytes (fits_trackedBlock _ _ _ _)

end Codegen

/-! ### Machines -/

variable {setup : Setup σ}

/-- **Executing a compiled block** succeeds, on any machine, whatever image and configuration it was
compiled with. -/
theorem VirtualMachine.execute_ok_of_compile (hsound : setup.env.Sound) {config : Config}
    {image : Image} {start : Address} {block : CompiledBlock}
    (h : Codegen.compile config setup.env.layout image start = .ok block)
    (vm : VirtualMachine σ) : ∃ reason, (vm.execute setup block).1 = .ok reason := by
  obtain ⟨listing, ending, -, hreads, hcode⟩ := Codegen.reads_of_compile h
  have hexecute :=
    Codegen.execute_of_reads hsound Codegen.Tracking.cautious_after hreads hcode vm
  exact ⟨_, by rw [hexecute]; rfl⟩

/-- The only error that running a block can end with is one of **compiling** it: no code that was
emitted traps, and no exit reason is unknown. -/
theorem Workbench.compileError_of_error (hsound : setup.env.Sound) (memory : GuestMemory σ)
    (history : List Action) {action : Action} {e : VmError}
    (h : (((ofMemory memory).after setup history).perform setup action).1 = .ran (.error e)) :
    ∃ c, e = .compile c := by
  cases hblock : ((ofMemory memory).after setup history).block? setup action with
  | some block =>
    obtain ⟨before, since, start, -, -, hcompile⟩ := provenance rfl rfl hblock
    obtain ⟨reason, hok⟩ := VirtualMachine.execute_ok_of_compile hsound hcompile
      ((ofMemory memory).after setup history).vm
    rw [answer_of_block? hblock, hok] at h
    cases h
  | none =>
    obtain ⟨c, hc⟩ := answer_of_block?_eq_none hblock h
    exact ⟨c, Except.error.inj hc⟩

/-- **Host control flow and stack discipline.** A compiled block has a disassembly, and every run
through it that starts with canonical registers is disciplined, whatever handlers do. So executing
a compiled block always yields an exit reason, on any machine, and in any history of a machine the
only errors of running a block are those of compiling it. -/
theorem host_control_flow (hsound : setup.env.Sound) :
    (∀ config image start block,
      Codegen.compile config setup.env.layout image start = .ok block →
        (∃ listing, disassemble block.code = some listing ∧
          ∀ s : State σ, Canonical setup.env.layout s.registers →
            s.registers.get .rsp = setup.env.stackTop → s.stack = [] →
            ∃ visits left, trace setup.env setup.interface block.program s = (visits, .ok left) ∧
              Machine.Disciplined setup.env setup.interface block.program listing visits left) ∧
        ∀ vm : VirtualMachine σ, ∃ reason, (vm.execute setup block).1 = .ok reason) ∧
    ∀ (memory : GuestMemory σ) (history : List Action) (action : Action) (e : VmError),
      (((Workbench.ofMemory memory).after setup history).perform setup action).1 =
        .ran (.error e) → ∃ c, e = .compile c := by
  refine ⟨fun config image start block h => ⟨?_, VirtualMachine.execute_ok_of_compile hsound h⟩,
    fun memory history action e h => Workbench.compileError_of_error hsound memory history h⟩
  obtain ⟨listing, ending, hreads, hcode, hdisassemble⟩ := Codegen.disassemble_of_compile h
  refine ⟨_, hdisassemble, fun s hcanonical hrsp hstack => ?_⟩
  obtain ⟨g, hmirrors⟩ := hcanonical.exists_mirrors hrsp hstack
  exact Codegen.disciplined_of_reads hsound Codegen.Tracking.cautious_after hreads hcode hmirrors

/-- A subroutine call, the return address of which is pushed by a handler. -/
def Demo.calling : Image := .ofList [0xCD, 0x00, 0x40]

/-- A block with a handler call is compiled, disassembled and run from the initial registers: the
run is disciplined. -/
theorem host_control_flow_calling :
    ∃ block listing visits left,
      Codegen.compile ⟨64, false⟩ Demo.hostEnvironment.layout Demo.calling 0 = .ok block ∧
      disassemble block.code = some listing ∧
      trace Demo.hostEnvironment Demo.interface block.program
        (Cpu.initial.enter Demo.hostEnvironment 0 (Demo.memory [])) = (visits, .ok left) ∧
      Machine.Disciplined Demo.hostEnvironment Demo.interface block.program listing visits
        left := by
  have hscan : (Codegen.scan ⟨64, false⟩ Demo.calling 0).outcome = .ok ⟨3, false⟩ := rfl
  obtain ⟨block, hblock, -⟩ := Codegen.compile_of_scan Demo.hostEnvironment.layout
    (show Demo.calling.size ≤ 0x10000 by decide) hscan
  have hentry := Codegen.mirrors_enter Demo.hostEnvironment .initial 0 (Demo.memory [])
  obtain ⟨⟨listing, hlisting, hruns⟩, -⟩ :=
    (@host_control_flow _ (Demo.setupWith 64) Demo.hostEnvironment_sound).1 _ _ _ _ hblock
  obtain ⟨visits, left, htrace, hdisciplined⟩ :=
    hruns _ hentry.canonical hentry.rsp hentry.stack
  exact ⟨block, listing, visits, left, hblock, hlisting, htrace, hdisciplined⟩

end Dynarec
