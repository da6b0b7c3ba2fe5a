import Dynarec.Proofs.Codegen.Branches
import Dynarec.Proofs.Vm.Execution

/-!
# Reloads of the host flags that are left out

Before a conditional branch, the compiler reloads the host flags only if it does not know that they
equal the shadow flags anyway. `omitted_reloads_unobservable` says that it knows right: whenever a
host branch is visited, the host flags equal the shadow flags, and nothing would be different if
they were reloaded before every conditional branch.
-/

namespace Dynarec

open Codegen (CompiledBlock HostFlags TestsGuest Tracking branchPosition trackedBlock)
open Guest (Condition Ending Image Placed)
open Interpreter (steps)

variable {σ : Type} {setup : Setup σ}

/-- A block in which the host flags are **reloaded before every conditional branch**. -/
def Codegen.CompiledBlock.reloading (layout : Bridge.Layout) (listing : List Placed)
    (ending : Ending) (block : CompiledBlock) : CompiledBlock :=
  { block with program := .ofCode (trackedBlock layout Tracking.oblivious listing ending).bytes }

/-! ### Visits of whole blocks -/

section Visits

variable {track : Tracking} {image : Image} {cursor : Nat} {listing : List Placed} {ending : Ending}
  {block : CompiledBlock} {ps qs : List Placed} {p : Placed} {condition : Condition}

/-- The offset of a branch lies in the code of the instructions. -/
theorem branchPosition_lt (hlisting : listing = ps ++ p :: qs)
    (hcondition : p.instruction.operation.condition? = some condition) (layout : Bridge.Layout)
    (track : Tracking) :
    branchPosition layout track ps p <
      (Codegen.trackedCode layout track .clobbered listing).bytes.length := by
  have hlt := Codegen.branchOffset_lt layout (track.afterAll .clobbered ps) hcondition
  rw [hlisting, Codegen.bytes_trackedCode_append, Codegen.trackedCode, List.length_append,
    Assembly.Code.bytes_append, List.length_append, branchPosition]
  omega

/-- **A visit of a host branch** tests the guest's condition, in the state that the interpreter
reaches before the guest's branch. -/
theorem testsGuest_of_visit (hsound : setup.env.Sound) (htrack : track.Cautious)
    (hreads : image.Reads cursor listing ending)
    (hcode : block.program.code = (trackedBlock setup.env.layout track listing ending).bytes)
    (hlisting : listing = ps ++ p :: qs)
    (hcondition : p.instruction.operation.condition? = some condition) (vm : VirtualMachine σ)
    {v : Machine.Visit σ} (hv : v ∈ vm.visits setup block)
    (ho : v.offset = branchPosition setup.env.layout track ps p) :
    ∃ g, steps setup.interface ps vm.entry = (g, none) ∧ TestsGuest condition g v := by
  have hlt := branchPosition_lt hlisting hcondition setup.env.layout track
  obtain ⟨-, hrest⟩ := Codegen.fits_trackedBlock setup.env.layout track listing ending
  rw [Codegen.visits_of_reads hsound htrack hreads hcode, trackedBlock] at hv
  have hfirst := Machine.mem_visits_left hrest hv (by omega)
  have hwell := hreads.wellFormed
  subst hlisting
  exact Codegen.visit_branch hsound htrack
    (Codegen.mirrors_enter setup.env vm.cpu vm.contextCycles vm.memory)
      Codegen.of_clobbered_eq_synced
    (fun q hq => hwell q (List.mem_append_left _ hq)) hcondition hfirst
    (by rw [ho, branchPosition, Nat.zero_add])

/-- The host branch **is visited** whenever the interpreter reaches the guest's branch. -/
theorem exists_visit_of_steps (hsound : setup.env.Sound) (htrack : track.Cautious)
    (hreads : image.Reads cursor listing ending)
    (hcode : block.program.code = (trackedBlock setup.env.layout track listing ending).bytes)
    (hlisting : listing = ps ++ p :: qs)
    (hcondition : p.instruction.operation.condition? = some condition) (vm : VirtualMachine σ)
    {g : Interpreter.State σ} (hsteps : steps setup.interface ps vm.entry = (g, none)) :
    ∃ v ∈ vm.visits setup block, v.offset = branchPosition setup.env.layout track ps p := by
  have hwell := hreads.wellFormed
  subst hlisting
  obtain ⟨v, hv, ho⟩ := Codegen.exists_visit_branch (i := setup.interface) hsound htrack
    (Codegen.mirrors_enter setup.env vm.cpu vm.contextCycles vm.memory)
      Codegen.of_clobbered_eq_synced
    (fun q hq => hwell q (List.mem_append_left _ hq)) hcondition qs hsteps 0
  rw [Codegen.visits_of_reads hsound htrack hreads hcode]
  exact ⟨v, Machine.mem_visits_append_left _ hv, by rw [ho, branchPosition, Nat.zero_add]⟩

end Visits

/-! ### Whole blocks -/

/-- **Reloads that are left out cannot be observed.** Take any block that was compiled, and any
state of the machine. The host branch of each conditional branch is visited exactly if the
interpreter reaches the guest's branch; then the host flags equal the shadow flags, whether or not
they were reloaded, and the guest's branch is taken exactly if its condition holds. The block with a
reload before every conditional branch does the same, in every respect. -/
theorem omitted_reloads_unobservable (hsound : setup.env.Sound) {image : Image} {start : Address}
    {block : CompiledBlock}
    (hcompile : Codegen.compile setup.config setup.env.layout image start = .ok block) :
    ∃ listing ending, Codegen.scan setup.config image start = ⟨listing, .ok ending⟩ ∧
      ∀ vm : VirtualMachine σ,
        (∀ ps p qs condition, listing = ps ++ p :: qs →
          p.instruction.operation.condition? = some condition →
          (∀ v ∈ vm.visits setup block,
            v.offset = branchPosition setup.env.layout HostFlags.after ps p →
            ∃ g, steps setup.interface ps vm.entry = (g, none) ∧ TestsGuest condition g v) ∧
          (∀ g, steps setup.interface ps vm.entry = (g, none) →
            ∃ v ∈ vm.visits setup block,
              v.offset = branchPosition setup.env.layout HostFlags.after ps p)) ∧
        vm.execute setup (block.reloading setup.env.layout listing ending) = vm.execute setup
          block ∧
        vm.executeEvents setup (block.reloading setup.env.layout listing ending) =
          vm.executeEvents setup block := by
  obtain ⟨listing, ending, hscan, hcode⟩ := Codegen.code_of_compile hcompile
  rw [← Codegen.trackedBlock_after] at hcode
  have hreads := Codegen.reads_of_scan_eq hscan
  -- both blocks are the same guest block under a cautious tracking
  have hafter := Tracking.cautious_after
  have hoblivious := Tracking.cautious_oblivious
  have hreloading : (block.reloading setup.env.layout listing ending).program.code =
      (trackedBlock setup.env.layout Tracking.oblivious listing ending).bytes := rfl
  refine ⟨listing, ending, hscan, fun vm => ⟨fun ps p qs condition hlisting hcondition => ⟨?_, ?_⟩,
    ?_, ?_⟩⟩
  · exact fun v hv ho => testsGuest_of_visit hsound hafter hreads hcode hlisting hcondition vm hv ho
  · exact fun g hsteps =>
      exists_visit_of_steps hsound hafter hreads hcode hlisting hcondition vm hsteps
  · rw [Codegen.execute_of_reads hsound hoblivious hreads hreloading,
      Codegen.execute_of_reads hsound hafter hreads hcode]
  · rw [Codegen.executeEvents_of_reads hsound hoblivious hreads hreloading,
      Codegen.executeEvents_of_reads hsound hafter hreads hcode]

/-- A countdown loop: `DEC A`, a conditional branch back to it, `HALT`. -/
def countdown : Image := .ofList [0x3D, 0x20, 0xFD, 0x76]

theorem omitted_reloads_unobservable_countdown :
    ∃ block listing ending,
      Codegen.compile (Demo.setupWith 64).config (Demo.setupWith 64).env.layout countdown 0 =
        .ok block ∧
      Codegen.scan (Demo.setupWith 64).config countdown 0 = ⟨listing, .ok ending⟩ ∧
      ∀ vm : VirtualMachine Demo.Messages,
        vm.execute (Demo.setupWith 64)
          (block.reloading (Demo.setupWith 64).env.layout listing ending) =
          vm.execute (Demo.setupWith 64) block := by
  have hscan : (Codegen.scan (Demo.setupWith 64).config countdown 0).outcome = .ok ⟨4, false⟩ := rfl
  have hsize : countdown.size ≤ 0x10000 := by decide
  obtain ⟨block, hblock, -⟩ := Codegen.compile_of_scan (Demo.setupWith 64).env.layout hsize hscan
  obtain ⟨listing, ending, hlisting, hvm⟩ :=
    @omitted_reloads_unobservable _ (Demo.setupWith 64) Demo.hostEnvironment_sound _ _ _ hblock
  exact ⟨block, listing, ending, hblock, hlisting, fun vm => (hvm vm).2.1⟩

end Dynarec
