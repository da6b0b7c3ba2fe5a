import Dynarec.Proofs.Interpreter.Padding
import Dynarec.Proofs.Vm.Walks

/-!
# Arithmetic on numbers of several bytes

A guest program that adds two numbers of several bytes, or subtracts them, byte by byte through the
carry, is carried out right by a machine (`multi_byte_arithmetic`): whatever instructions stand
between those of the program that fall through and spare what it works on, and however the program
is cut into blocks.
-/

namespace Dynarec

open Bridge (GuestMemory)
open Guest (AluOp ExitReason Placed Window)
open Interpreter (Chain Filler Padded Spares State step)

variable {σ : Type} {setup : Setup σ}

namespace VirtualMachine

/-- **Arithmetic through the carry.** Fillers fall through and spare the chain. Take a machine with
no stale block in its cache, a number `x` of `n` bytes at HL and another one `y` at DE, in RAM,
apart from each other and `x` apart from the code, and a carry `c`. Let the code at the next address
consist of `n` rounds, between the instructions of which there may be fillers and whatever else
falls through and spares the chain, and of a last instruction that ends the block and spares the
chain. Then the machine carries out the code. If the rounds add, `x + y + c` modulo `256 ^ n` lies
at HL then and the carry is what does not fit. If they subtract, it is `y - x - c`, and the carry is
set exactly if `y < x + c`. HL and DE point behind the numbers and no other byte has changed. -/
theorem multi_byte_arithmetic (hsound : setup.env.Sound) :
    (∀ (p : Placed) (s : State σ), Filler s p.instruction.operation →
      (step setup.interface p s).2 = none ∧ Spares setup.interface p s) ∧
    ∀ (vm : VirtualMachine σ) (code : Address → Prop) (n : Nat) (op : AluOp)
      (executed : List (Placed × State σ)) (last : Placed) (u t : State σ)
      (exit : ExitReason × Address),
      vm.Current setup → vm.entry.chain.Fits code n → op = .adc ∨ op = .sbc →
      Padded setup.interface vm.memory.window code (Chain.rounds op n) vm.cpu.nextAddress vm.entry
        executed last.address u →
      last.LiesIn vm.memory.window code → last.instruction.operation.endsBlock = true →
      step setup.interface last u = (t, some exit) → t.chain = u.chain →
      let x := vm.memory.window.number vm.entry.hl n
      let y := vm.memory.window.number vm.entry.de n
      let c := vm.entry.carry.toNat
      let z := t.memory.window.number vm.entry.hl n
      vm.CarriesOut setup (executed ++ [(last, u)]) (t, exit) ∧
        (op = .adc → z = (x + y + c) % 256 ^ n ∧ t.carry.toNat = (x + y + c) / 256 ^ n) ∧
        (op = .sbc → (z : Int) = ((y : Int) - x - c) % (256 ^ n : Nat) ∧
          (t.carry = true ↔ y < x + c)) ∧
        t.hl = vm.entry.hl + BitVec.ofNat 16 n ∧ t.de = vm.entry.de + BitVec.ofNat 16 n ∧
        ∀ a : Address, a.toNat < vm.entry.hl.toNat ∨ vm.entry.hl.toNat + n ≤ a.toNat →
          t.memory.window.get a = vm.memory.window.get a := by
  refine ⟨fun p s => Interpreter.spares_of_filler, ?_⟩
  intro vm code n op executed last u t exit hcurrent hfits hop hpadded hlies hends hlast hspares
  have hagrees : vm.memory.window.AgreesOn code vm.memory.window := fun _ _ => rfl
  have hcp : op ≠ .cp := by
    rintro rfl
    rcases hop with h | h <;> cases h
  have hblock := hlies.hasBlock hends
  obtain ⟨hchain, hwalk⟩ := hpadded.walk hblock (hfits.allowsAll hcp) hagrees fun _ =>
    .last ⟨hlies.entry, hblock setup.budget⟩ hlast
  have hcarries := carriesOut_of_walk hsound (hcurrent.currentIn _ code) hagrees hwalk
  -- the last instruction spares what the rounds have left
  have hleft : t.chain = vm.entry.chain.run (Chain.rounds op n) := hspares.trans hchain
  obtain ⟨hhl, hde, hframe⟩ := hfits.frame op
  have hresult := hfits.chained hop
  rw [← hleft] at hhl hde hframe hresult
  have hlt := t.memory.window.number_lt vm.entry.hl n
  refine ⟨hcarries, ?_, ?_, hhl, hde, hframe⟩
  · rintro rfl
    exact hresult.adc hlt
  · rintro rfl
    exact hresult.sbc hlt

end VirtualMachine

/-! ### A sum of two bytes -/

namespace Demo

/-- A machine that adds 1 to `0x01FF` in two rounds, with INC B in the first one and BIT 0,B between
them. -/
def adding : VirtualMachine Messages :=
  ⟨⟨0, 0, 0, 0x8010, 0x8000, 0, 0, 0⟩,
    ⟨((Window.zeros.store 0
      [0x1A, 0x8E, 0x22, 0x04, 0x13, 0xCB, 0x40, 0x1A, 0x8E, 0x22, 0x13, 0x10, 0x00]).store 0x8000
      [0xFF, 0x01]).store 0x8010 [0x01, 0x00], #[]⟩, 0, .empty⟩

/-- The code of the program. -/
def addingCode (a : Address) : Prop := a.toNat < 13

theorem liesIn_adding (p : Placed)
    (hentry : adding.memory.window.image.entry p.address.toNat = .ok p.instruction)
    (hhandled : p.instruction.operation.isHandled = true) (hstop : p.stop ≤ 13) :
    p.LiesIn adding.memory.window addingCode :=
  ⟨hentry, hhandled, fun _ ha => Nat.lt_of_lt_of_le ha.2 hstop⟩

theorem padded_adding : ∃ executed u,
    Padded (setupWith 3).interface adding.memory.window addingCode (Chain.rounds .adc 2)
      adding.cpu.nextAddress adding.entry executed 11 u := by
  have hload := liesIn_adding ⟨0, ⟨.load (.register .a) (.indirect .de), 1⟩⟩ rfl rfl (by decide)
  have hadd := liesIn_adding ⟨1, ⟨.alu .adc .indirectHl, 1⟩⟩ rfl rfl (by decide)
  have hstore := liesIn_adding ⟨2, ⟨.load .indirectHlIncrement (.register .a), 1⟩⟩ rfl rfl
    (by decide)
  have hcount := liesIn_adding ⟨3, ⟨.increment (.register .b), 1⟩⟩ rfl rfl (by decide)
  have hnext := liesIn_adding ⟨4, ⟨.increment16 .de, 1⟩⟩ rfl rfl (by decide)
  have htest := liesIn_adding ⟨5, ⟨.bit 0 (.register .b), 2⟩⟩ rfl rfl (by decide)
  have hload' := liesIn_adding ⟨7, ⟨.load (.register .a) (.indirect .de), 1⟩⟩ rfl rfl (by decide)
  have hadd' := liesIn_adding ⟨8, ⟨.alu .adc .indirectHl, 1⟩⟩ rfl rfl (by decide)
  have hstore' := liesIn_adding ⟨9, ⟨.load .indirectHlIncrement (.register .a), 1⟩⟩ rfl rfl
    (by decide)
  have hnext' := liesIn_adding ⟨10, ⟨.increment16 .de, 1⟩⟩ rfl rfl (by decide)
  exact ⟨_, _, .operation hload rfl <| .operation hadd rfl <| .operation hstore rfl <|
    .filler hcount rfl rfl <| .operation hnext rfl <| .filler htest rfl rfl <|
    .operation hload' rfl <| .operation hadd' rfl <| .operation hstore' rfl <|
    .operation hnext' rfl <| .nil 11 _⟩

end Demo

/-- Two rounds add the numbers at HL and DE, with fillers between them, in blocks of no more than
three instructions. -/
theorem VirtualMachine.multi_byte_arithmetic_adding :
    ∃ runs init last, Demo.adding.reports (Demo.setupWith 3) runs = init ++ [last] ∧
      (∀ r ∈ init, r.outcome = .ok .branch) ∧ last.outcome = .ok .stop ∧
      last.memory.window.number 0x8000 2 = 0x200 := by
  obtain ⟨executed, u, hpadded⟩ := Demo.padded_adding
  have hstop := Demo.liesIn_adding ⟨11, ⟨.stop, 2⟩⟩ rfl rfl (by decide)
  have hfits : Demo.adding.entry.chain.Fits Demo.addingCode 2 := by
    refine ⟨by decide, by decide, by decide, by decide, fun a hlow _ hcode => ?_⟩
    have hhl : Demo.adding.entry.chain.hl.toNat = 0x8000 := rfl
    simp only [Demo.addingCode] at hcode
    omega
  obtain ⟨⟨runs, init, last, hreports, hinit, hshows, -⟩, hsum, -⟩ :=
    (@multi_byte_arithmetic _ (Demo.setupWith 3) Demo.hostEnvironment_sound).2 Demo.adding
      Demo.addingCode 2 .adc executed _ u _ _ nofun hfits (.inl rfl) hpadded hstop rfl rfl rfl
  refine ⟨runs, init, last, hreports, hinit, hshows.outcome, ?_⟩
  rw [hshows.memory]
  exact (hsum rfl).1

end Dynarec
