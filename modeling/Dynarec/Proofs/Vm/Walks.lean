import Dynarec.Proofs.Interpreter.Walks
import Dynarec.Proofs.Vm.Coherence
import Dynarec.Proofs.Vm.SingleSteps

/-!
# Walks of a machine

A machine **carries out** a walk through guest code that stays (`carriesOut_of_walk`): in some
number of runs it executes just the instructions of the walk, each in the state in which the walk
has it, and the last run shows what the walk leads to. The limit for the instructions of a block
decides how many runs there are and nothing else.
-/

namespace Dynarec

open Codegen (CompiledBlock)
open Guest (Ending ExitReason Placed Window)
open Interpreter (State Takes Walk execution runBlock)

variable {σ : Type} {setup : Setup σ}

/-- The number of instructions that may follow the first one of a block. -/
def Setup.budget (setup : Setup σ) : Nat := setup.config.maxBlockInstructions - 1

namespace VirtualMachine

variable {vm : VirtualMachine σ} {w : Window} {code : Address → Prop} {a : Address}
  {block : CompiledBlock}

/-- The guest instructions that **run after run executes**, each with the state in which it starts,
provided that a cached block is the one that would be compiled. -/
def executed (setup : Setup σ) : (runs : Nat) → VirtualMachine σ → List (Placed × State σ)
  | 0, _ => []
  | runs + 1, vm =>
    execution setup.interface
        (Codegen.scan setup.config vm.memory.window.image vm.cpu.nextAddress).listing vm.entry ++
      executed setup runs (vm.run setup).2

/-- Whether a machine **carries out** instructions that lead to an outcome: in some number of runs,
all but the last of which end with a branch. -/
def CarriesOut (setup : Setup σ) (vm : VirtualMachine σ) (instructions : List (Placed × State σ))
    (out : State σ × ExitReason × Address) : Prop :=
  ∃ runs init last, vm.reports setup runs = init ++ [last] ∧
    (∀ r ∈ init, r.outcome = .ok .branch) ∧ last.Shows out ∧
    vm.executed setup runs = instructions

/-- Whether every cached block is the one that **would be compiled** now. -/
def Current (setup : Setup σ) (vm : VirtualMachine σ) : Prop :=
  ∀ a block, (a, block) ∈ vm.cache.blocks → vm.compile setup a = .ok block

/-! ### Blocks in code that stays -/

section Block

variable (hblock : w.HasBlock setup.budget code a) (hagrees : vm.memory.window.AgreesOn code w)

include hblock hagrees

/-- A block of the code can be compiled. -/
theorem exists_compile : ∃ block, vm.compile setup a = .ok block := by
  obtain ⟨ending, houtcome, -⟩ := id hblock
  rw [← hblock.scan_eq hagrees] at houtcome
  have hscan : (Codegen.scan setup.config vm.memory.window.image a).outcome = .ok ending := houtcome
  obtain ⟨block, hcompile, -⟩ := Codegen.compile_of_scan setup.env.layout (Nat.le_refl _) hscan
  exact ⟨block, hcompile⟩

/-- A block that is compiled from the code **lies in the code**, with every byte of its range. -/
theorem code_of_contains (h : vm.compile setup a = .ok block) {b : Address}
    (hb : block.range.contains b = true) : code b := by
  obtain ⟨ending, houtcome, hbelongs⟩ := belongsTo_of_compile h
  obtain ⟨ending', houtcome', hcode⟩ := id hblock
  rw [← hblock.scan_eq hagrees] at houtcome'
  obtain rfl : ending = ending' := Except.ok.inj (houtcome.symm.trans houtcome')
  rw [Guest.Range.contains_iff, hbelongs.translates.start, hbelongs.translates.stop] at hb
  exact hcode b hb.1 hb.2

end Block

/-- Whether the cached blocks of the code that stays are those that would be compiled now. -/
def CurrentIn (setup : Setup σ) (w : Window) (code : Address → Prop) (vm : VirtualMachine σ) :
    Prop :=
  ∀ a block, w.HasBlock setup.budget code a → (a, block) ∈ vm.cache.blocks →
    vm.compile setup a = .ok block

theorem Current.currentIn (h : vm.Current setup) (w : Window) (code : Address → Prop) :
    vm.CurrentIn setup w code := fun a block _ hmem => h a block hmem

/-- The cached blocks of the code **stay current** in a run after which the code is still the
same. -/
theorem CurrentIn.run (h : vm.CurrentIn setup w code) (hagrees : vm.memory.window.AgreesOn code w)
    (hagrees' : (vm.run setup).2.memory.window.AgreesOn code w) :
    (vm.run setup).2.CurrentIn setup w code := by
  intro a block hblock hmem
  have hcompile : vm.compile setup a = .ok block := by
    rcases mem_cache_run hmem with hold | hnew
    · exact h a block hblock hold
    · exact hnew
  refine compile_of_get_eq hcompile fun b hb => ?_
  have hcode := code_of_contains hblock hagrees hcompile hb
  exact (hagrees' b hcode).trans (hagrees b hcode).symm

/-! ### Run after run -/

theorem executed_one (setup : Setup σ) (vm : VirtualMachine σ) :
    vm.executed setup 1 = execution setup.interface
      (Codegen.scan setup.config vm.memory.window.image vm.cpu.nextAddress).listing vm.entry :=
  List.append_nil _

theorem CarriesOut.one {out : State σ × ExitReason × Address}
    (hshows : (vm.report setup).Shows out) :
    vm.CarriesOut setup (vm.executed setup 1) out :=
  ⟨1, [], vm.report setup, rfl, fun _ hr => absurd hr List.not_mem_nil, hshows, rfl⟩

theorem CarriesOut.cons {rest : List (Placed × State σ)} {out : State σ × ExitReason × Address}
    (houtcome : (vm.report setup).outcome = .ok .branch)
    (h : (vm.run setup).2.CarriesOut setup rest out) :
    vm.CarriesOut setup (vm.executed setup 1 ++ rest) out := by
  obtain ⟨runs, init, last, hreports, hinit, hshows, rfl⟩ := h
  refine ⟨runs + 1, vm.report setup :: init, last, ?_, ?_, hshows, ?_⟩
  · rw [reports, hreports, List.cons_append]
  · exact List.forall_mem_cons.mpr ⟨houtcome, hinit⟩
  · rw [executed_one, executed]

section Walk

variable (hsound : setup.env.Sound) (hcurrent : vm.CurrentIn setup w code)
  (hagrees : vm.memory.window.AgreesOn code w) {instructions : List (Placed × State σ)}
  {out : State σ × ExitReason × Address}
  (h : Walk setup.interface setup.budget w code vm.cpu.nextAddress vm.entry instructions out)

include hsound hcurrent hagrees h

/-- **A run on a walk** takes off the walk what its block carries out, and leaves the machine where
the rest of the walk starts. -/
theorem run_of_walk :
    ∃ left, (vm.report setup).Shows left ∧ (vm.run setup).2.entry = left.1 ∧
      (vm.run setup).2.cpu.nextAddress = left.2.2 ∧ vm.executed setup 1 ≠ [] ∧
      Takes setup.interface setup.budget w code (vm.executed setup 1) left instructions out := by
  obtain ⟨block, hcompile⟩ := exists_compile h.hasBlock hagrees
  obtain ⟨vm', hblock⟩ := blockAt_of_compile hcompile fun b hb =>
    Except.ok.inj ((hcurrent _ b h.hasBlock (Cache.mem_of_find? hb)).symm.trans hcompile)
  obtain ⟨ending, -, hbelongs⟩ := belongsTo_of_compile hcompile
  obtain ⟨hrun, -⟩ := run_of_belongsTo hsound hblock hbelongs
  refine ⟨_, (report_of_belongsTo hsound hblock hbelongs).1, ?_, ?_, ?_, ?_⟩
  · rw [hrun]
    exact State.ofCpu_toCpu _ _
  · rw [hrun]
    exact State.nextAddress_toCpu _ _
  · rw [executed_one]
    obtain ⟨p, ps, hlisting⟩ := List.exists_cons_of_ne_nil hbelongs.reads.ne_nil
    rw [hlisting, execution]
    exact List.cons_ne_nil _ _
  · rw [executed_one]
    exact Interpreter.runBlock_of_walk hagrees hbelongs.reads rfl h

/-- **A machine carries out a walk** through code that stays, if no block of it that is cached is
stale. The induction is on the number of instructions, of which each run takes some off. -/
theorem carriesOut_of_walk : vm.CarriesOut setup instructions out := by
  induction hlength : instructions.length using Nat.strongRecOn generalizing vm instructions with
  | ind length ih =>
    obtain ⟨left, hshows, hentry, hnext, hne, htakes⟩ := run_of_walk hsound hcurrent hagrees h
    rcases htakes with ⟨rfl, rfl⟩ | ⟨t, c, rest, rfl, rfl, htagrees, hrest⟩
    · exact .one hshows
    · -- the machine is where the rest of the walk starts, which is shorter
      have hshorter : rest.length < length := by
        have hpos := List.length_pos_iff.mpr hne
        rw [List.length_append] at hlength
        omega
      have hagrees' : (vm.run setup).2.memory.window.AgreesOn code w := by
        have hmemory : (vm.run setup).2.memory = t.memory := congrArg State.memory hentry
        rw [hmemory]
        exact htagrees
      obtain rfl : (vm.run setup).2.entry = t := hentry
      obtain rfl : (vm.run setup).2.cpu.nextAddress = c := hnext
      exact .cons hshows.outcome
        (ih rest.length hshorter (hcurrent.run hagrees hagrees') hagrees' hrest rfl)

end Walk

end VirtualMachine

end Dynarec
