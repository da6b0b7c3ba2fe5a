import Dynarec.Proofs.Interpreter.IdealStack
import Dynarec.Proofs.Vm.Walks

/-!
# The stack of a machine

On a machine with a flat interface the guest stack is **last in, first out**, wherever SP starts and
whichever way the words are pushed and popped (`stack_last_in_first_out`): the machine carries out
what a guest processor with an ideal stack does, as long as the code is no part of the stack and the
stack is not written otherwise.
-/

namespace Dynarec

open Bridge (GuestMemory Recorder)
open Guest (ExitReason Placed Window)
open Interpreter (Delivers Holds Matching Occupied Pushes StackWalk State StackVisit stackUse)

variable {σ : Type} {setup : Setup σ}

namespace VirtualMachine

/-- **Last in, first out.** Take a machine with a flat interface and no stale block in its cache,
and a walk of its guest processor with an ideal stack that is empty at first, never has more than
32767 words, and ends with the words `stack` on it. The words below SP are no part of the code, and
only pushed. Then the machine carries out the walk. All the time, and in the end, SP lies two bytes
below where it started for each word on the ideal stack, modulo `2 ^ 16`, and the words are in
memory from SP on, the low byte of each first. And whatever pops a word has a matching instruction,
which pushed it: a pair, of F only Z and C, or the address after a call. It goes to a pair, of which
F keeps only Z and C, or it is where a return leads. -/
theorem stack_last_in_first_out (hsound : setup.env.Sound) (hflat : setup.interface.IsFlat)
    {vm : VirtualMachine σ} (hcurrent : vm.Current setup) {code : Address → Prop} {depth : Nat}
    (hdepth : depth ≤ 0x7FFF) (hapart : ∀ a, Occupied vm.entry.sp depth a → ¬ code a)
    {visits : List (StackVisit σ)} {out : State σ × ExitReason × Address} {stack : List (BitVec 16)}
    (hwalk : StackWalk setup.interface setup.budget vm.memory.window code vm.entry.sp depth
      vm.cpu.nextAddress vm.entry [] visits out stack) :
    vm.CarriesOut setup (visits.map fun visit => (visit.placed, visit.state)) out ∧
      (stack = [] → out.1.sp = vm.entry.sp) ∧ Holds vm.entry.sp out.1 stack ∧
      (∀ visit ∈ visits, Holds vm.entry.sp visit.state visit.stack) ∧
      ∀ k popper deliver, visits[k]? = some popper →
        stackUse setup.interface popper.placed popper.state = .pop deliver →
        ∃ j pusher v, Matching setup.interface visits j k pusher popper v ∧
          Pushes pusher.placed pusher.state v ∧
          Delivers setup.interface popper.placed popper.state v := by
  have hagrees : vm.memory.window.AgreesOn code vm.memory.window := fun _ _ => rfl
  obtain ⟨hreal, hend, hholds⟩ :=
    hwalk.walk hflat hdepth hapart (.nil vm.entry) (Nat.zero_le depth) hagrees
  refine ⟨carriesOut_of_walk hsound (hcurrent.currentIn _ code) hagrees hreal, ?_, hend, hholds, ?_⟩
  · rintro rfl
    exact hend.sp.trans (BitVec.sub_zero _)
  · intro k popper deliver hk huse
    obtain ⟨j, pusher, v, hmatch⟩ := hwalk.exists_match hk huse
    refine ⟨j, pusher, v, hmatch, Interpreter.pushes_of_stackUse hmatch.pushes, ?_⟩
    -- memory holds the head of the ideal stack at SP
    obtain ⟨hstep, -⟩ := Interpreter.step_of_pop hflat huse
    have hpopper := hholds popper (List.mem_of_getElem? hk)
    rw [hmatch.stack] at hpopper
    rw [hpopper.head] at hstep
    exact Interpreter.delivers_of_stackUse huse hstep

end VirtualMachine

/-! ### A program that crosses `0xFF80` -/

namespace Demo

/-- A machine that calls a subroutine which pushes BC and pops AF, with SP at `0xFF82`. BC is pushed
to the window and popped from the interface. -/
def crossing : VirtualMachine Recorder :=
  ⟨⟨0, 0, 0x12F5, 0, 0, 0xFF82, 0, 0⟩,
    ⟨Window.zeros.store 0 [0xCD, 0x05, 0x00, 0x10, 0x00, 0xC5, 0xF1, 0xC9], #[]⟩, 0, .empty⟩

/-- The setup of a machine with flat memory. -/
def flatSetup : Setup Recorder := ⟨Demo.hostEnvironment, Bridge.flat false, ⟨64, false⟩⟩

/-- The code of the program. -/
def crossingCode (a : Address) : Prop := a.toNat < 8

theorem stands_crossing (p : Placed) (ending : Guest.Ending)
    (hentry : crossing.memory.window.image.entry p.address.toNat = .ok p.instruction)
    (hscan : (crossing.memory.window.image.scan flatSetup.budget p.address.toNat).outcome =
      .ok ending) (hend : ending.cursor ≤ 8) :
    p.Stands crossing.memory.window flatSetup.budget crossingCode :=
  ⟨hentry, ending, hscan, fun _ _ hb => Nat.lt_of_lt_of_le hb hend⟩

/-- Whether the program goes on **from a state** until it stops, with BC in A and F. -/
def StopsFrom (a : Address) (s : State Recorder) (stack : List (BitVec 16)) : Prop :=
  ∃ visits out, StackWalk flatSetup.interface flatSetup.budget crossing.memory.window crossingCode
      crossing.entry.sp 2 a s stack visits out [] ∧
    out.2 = (.stop, 5) ∧ out.1.a = 0x12 ∧ out.1.f = 0x90

theorem StopsFrom.step {p : Placed} {s : State Recorder} {next : State Recorder × Interpreter.Exit}
    {c : Address} {stack stack' : List (BitVec 16)}
    (hstands : p.Stands crossing.memory.window flatSetup.budget crossingCode)
    (hstep : Interpreter.IdealStep flatSetup.interface
      (fun a => crossingCode a ∨ Occupied crossing.entry.sp 2 a) p s stack next stack')
    (hlength : stack'.length ≤ 2) (hexit : next.2.getD (.branch, p.next) = (.branch, c))
    (h : StopsFrom c next.1 stack') : StopsFrom p.address s stack := by
  obtain ⟨visits, out, hwalk, hout⟩ := h
  exact ⟨_, out, .more hstands hstep hlength hexit hwalk, hout⟩

theorem stopsFrom_crossing : StopsFrom crossing.cpu.nextAddress crossing.entry [] := by
  have hcall := stands_crossing ⟨0, ⟨.call none 5, 3⟩⟩ ⟨3, false⟩ rfl rfl (by decide)
  have hpush := stands_crossing ⟨5, ⟨.push .bc, 1⟩⟩ ⟨8, false⟩ rfl rfl (by decide)
  have hpop := stands_crossing ⟨6, ⟨.pop .af, 1⟩⟩ ⟨8, false⟩ rfl rfl (by decide)
  have hret := stands_crossing ⟨7, ⟨.ret none, 1⟩⟩ ⟨8, false⟩ rfl rfl (by decide)
  have hstop := stands_crossing ⟨3, ⟨.stop, 2⟩⟩ ⟨5, false⟩ rfl rfl (by decide)
  refine .step hcall (.push [] rfl) (by decide) rfl ?_
  refine .step hpush (.push _ rfl) (by decide) rfl ?_
  refine .step hpop (.pop _ _ rfl) (by decide) rfl ?_
  refine .step hret (.pop _ _ rfl) (by decide) rfl ?_
  exact ⟨_, _, .last hstop (.none _ rfl rfl fun _ _ => rfl) (by decide), rfl, rfl, rfl⟩

end Demo

/-- A program that calls a subroutine, pushes BC and pops AF while SP crosses the lower end of high
RAM. At the end SP is back where it was, and A and F hold what was in B and, of Z and C, in C. -/
theorem VirtualMachine.stack_last_in_first_out_crossing :
    ∃ runs init last, Demo.crossing.reports Demo.flatSetup runs = init ++ [last] ∧
      (∀ r ∈ init, r.outcome = .ok .branch) ∧ last.outcome = .ok .stop ∧
      last.cpu.sp = Demo.crossing.cpu.sp ∧ last.cpu.pc = 5 ∧ last.cpu.a = 0x12 ∧
      last.cpu.f = 0x90 := by
  obtain ⟨visits, out, hwalk, hexit, ha, hf⟩ := Demo.stopsFrom_crossing
  have hapart : ∀ a, Occupied Demo.crossing.entry.sp 2 a → ¬ Demo.crossingCode a := by
    intro a hoccupied hcode
    have hsp : Demo.crossing.entry.sp = 0xFF82 := rfl
    rw [hsp] at hoccupied
    simp only [Occupied, Demo.crossingCode] at hoccupied hcode
    bv_omega
  obtain ⟨⟨runs, init, last, hreports, hinit, hshows, -⟩, hsp, -⟩ :=
    @stack_last_in_first_out _ Demo.flatSetup Demo.hostEnvironment_sound Bridge.isFlat_flat
      Demo.crossing nofun Demo.crossingCode 2 (by decide) hapart visits out [] hwalk
  refine ⟨runs, init, last, hreports, hinit, ?_, ?_, ?_, ?_, ?_⟩
  · rw [hshows.outcome, hexit]
  · rw [hshows.cpu, State.toCpu, hsp rfl]
    rfl
  · rw [hshows.cpu, hexit]
    rfl
  · rw [hshows.cpu, State.toCpu, ha]
    rfl
  · rw [hshows.cpu, State.toCpu, hf]
    rfl

end Dynarec
