import Dynarec.Codegen.Flags
import Dynarec.Interpreter.Run
import Dynarec.Proofs.Machine.Effects
import Dynarec.Vm.Cpu

/-!
# Guest state in the host

`Mirrors` ties a machine state to the interpreter state it stands for: every guest register is in
its host register, zero-extended, the shadow flags hold Z and C, and the host stack is empty. It is
what every piece of generated code starts from and ends with. The host registers that it says
nothing about are **free** for intermediate values.

A state is **synced** when its host flags equal the shadow flags.
-/

namespace Dynarec

open Bridge (GuestMemory)
open Guest (Reg16)
open Host (Register Registers Flags)
open Machine (Environment State Changes)

variable {σ : Type}

/-- **What the host promises**: a window aligned to its size, an execution context outside of the
window, and a stack that is aligned to 16 bytes before the return address is pushed. -/
structure Machine.Environment.Sound (env : Environment) : Prop where
  windowAligned : env.layout.windowBase.setWidth 16 = 0#16
  contextApart : ∀ n < Machine.contextSize,
    0x10000 ≤ (env.layout.context + BitVec.ofNat 64 n - env.layout.windowBase).toNat
  stackAligned : env.stackTop.setWidth 4 = 8#4

namespace Codegen

/-! ### Shadow flags -/

/-- The **shadow flags** for Z and C. -/
def shadowWord (zero carry : Bool) : HostWord :=
  (if zero then hostZero else 0) ||| (if carry then hostCarry else 0)

/-- Of the captured flags, bit 6 is the zero flag. -/
theorem and_hostZero (v : HostWord) : v &&& hostZero = shadowWord (v.getLsbD 6) false := by
  have h : v &&& hostZero = if v.getLsbD 6 then BitVec.twoPow 64 6 else 0 := BitVec.and_twoPow v 6
  rw [h]
  cases v.getLsbD 6 <;> rfl

/-- Of the captured flags, bit 0 is the carry flag. -/
theorem and_hostCarry (v : HostWord) : v &&& hostCarry = shadowWord false (v.getLsbD 0) := by
  have h : v &&& hostCarry = if v.getLsbD 0 then BitVec.twoPow 64 0 else 0 := BitVec.and_twoPow v 0
  rw [h]
  cases v.getLsbD 0 <;> rfl

/-- The shadow flags are put together from the two flags. -/
theorem shadowWord_eq_or (zero carry : Bool) :
    shadowWord zero carry = shadowWord zero false ||| shadowWord false carry := by
  cases zero <;> cases carry <;> rfl

/-- Of the captured flags, bits 6 and 0 make up shadow flags. -/
theorem and_hostZero_or_hostCarry (v : HostWord) :
    v &&& (hostZero ||| hostCarry) = shadowWord (v.getLsbD 6) (v.getLsbD 0) := by
  rw [shadowWord_eq_or, ← and_hostZero, ← and_hostCarry]
  exact BitVec.eq_of_getLsbD_eq fun k _ => by simp [Bool.and_or_distrib_left]

@[simp]
theorem getLsbD_shadowWord_zero (zero carry : Bool) :
    (shadowWord zero carry).getLsbD 6 = zero := by
  cases zero <;> cases carry <;> rfl

@[simp]
theorem getLsbD_shadowWord_carry (zero carry : Bool) :
    (shadowWord zero carry).getLsbD 0 = carry := by
  cases zero <;> cases carry <;> rfl

/-- Whether the **host flags equal the shadow flags**. -/
def Synced (s : State σ) : Prop := s.flags = .ofWord (s.registers.get shadowFlags)

/-! ### Mirrored states -/

/-- What a host register holds for the guest, if anything. -/
def image (env : Environment) (g : Interpreter.State σ) : Register → Option HostWord
  | .r13 => some (g.a.setWidth 64)
  | .rbx => some (g.bc.setWidth 64)
  | .rbp => some (g.de.setWidth 64)
  | .r12 => some (g.hl.setWidth 64)
  | .r14 => some (env.layout.windowBase ||| g.sp.setWidth 64)
  | .r15 => some (shadowWord g.zero g.carry)
  | .r10 => some g.cycles
  | .rsp => some env.stackTop
  | _ => none

/-- The host registers that hold nothing for the guest. -/
def freeRegisters : List Register :=
  [result, operand, value, address, window, capturedFlags, scratchFlags, context]

/-- A machine state that **stands for** an interpreter state. -/
structure Mirrors (env : Environment) (g : Interpreter.State σ) (s : State σ) : Prop where
  registers : ∀ r, ∀ v ∈ image env g r, s.registers.get r = v
  stack : s.stack = []
  contextCycles : s.contextCycles = g.contextCycles
  memory : s.memory = g.memory

namespace Mirrors

variable {env : Environment} {g g' : Interpreter.State σ} {s t : State σ} {rs : List Register}

theorem a (h : Mirrors env g s) : s.registers.get accumulator = g.a.setWidth 64 :=
  h.registers _ _ rfl

theorem sp (h : Mirrors env g s) :
    s.registers.get stackPointer = env.layout.windowBase ||| g.sp.setWidth 64 := h.registers _ _ rfl

theorem flags (h : Mirrors env g s) : s.registers.get shadowFlags = shadowWord g.zero g.carry :=
  h.registers _ _ rfl

theorem cycles (h : Mirrors env g s) : s.registers.get cycleCounter = g.cycles :=
  h.registers _ _ rfl

theorem rsp (h : Mirrors env g s) : s.registers.get .rsp = env.stackTop := h.registers _ _ rfl

/-- The register pairs other than SP are zero-extended, in a register each. -/
theorem pair (h : Mirrors env g s) {p : Reg16} (hp : p ≠ .sp) :
    s.registers.get (pairRegister p) = (g.get16 p).setWidth 64 := by
  cases p with
  | sp => exact absurd rfl hp
  | _ => exact h.registers _ _ rfl

/-- The low word of a pair's register is the pair, for SP too: the window is aligned to its size,
and so the address in it does not change the low bits. -/
theorem pairLow (hsound : env.Sound) (h : Mirrors env g s) (p : Reg16) :
    (s.registers.get (pairRegister p)).setWidth 16 = g.get16 p := by
  by_cases hp : p = .sp
  · subst hp
    rw [pairRegister, h.sp, BitVec.setWidth_or, hsound.windowAligned]
    simp [Interpreter.State.get16]
  · rw [h.pair hp]
    simp

/-- The host stack is balanced, as there is nothing on it. -/
theorem isBalanced (h : Mirrors env g s) : s.isBalanced env = true := by
  simp [State.isBalanced, h.rsp, h.stack]

/-! ### Changes of mirrored states -/

/-- A free register stands for nothing. -/
theorem image_free {r : Register} (hr : r ∈ freeRegisters) : image env g r = none := by
  simp only [freeRegisters, List.mem_cons, List.not_mem_nil, or_false] at hr
  rcases hr with rfl | rfl | rfl | rfl | rfl | rfl | rfl | rfl <;> rfl

/-- **One bound register** changes, besides free ones: what the others stand for must be the same in
both guest states, and the new value of the one must be what it stands for. -/
theorem rebind {q : Register} (h : Mirrors env g s) (hc : Changes rs s t)
    (hrs : ∀ r ∈ rs, r ∈ q :: freeRegisters) (hold : ∀ r, r ≠ q → image env g' r = image env g r)
    (hnew : ∀ v ∈ image env g' q, t.registers.get q = v)
    (hcycles : g'.contextCycles = g.contextCycles) (hmemory : g'.memory = g.memory) :
    Mirrors env g' t where
  registers r v hv := by
    by_cases hq : r = q
    · subst hq
      exact hnew v hv
    · rw [hold r hq] at hv
      refine (hc.registers r fun hr => ?_).trans (h.registers r v hv)
      rw [image_free ((List.mem_cons.mp (hrs r hr)).resolve_left hq)] at hv
      cases hv
  stack := hc.stack.trans h.stack
  contextCycles := hc.contextCycles.trans (h.contextCycles.trans hcycles.symm)
  memory := hc.memory.trans (h.memory.trans hmemory.symm)

/-- Free registers change, and the machine still stands for the same guest state. -/
theorem free (h : Mirrors env g s) (hc : Changes rs s t)
    (hrs : ∀ r ∈ rs, r ∈ freeRegisters) : Mirrors env g t :=
  h.rebind (q := result) hc (fun r hr => List.mem_cons_of_mem _ (hrs r hr)) (fun _ _ => rfl)
    (fun v hv => by cases hv) rfl rfl

/-- A is set, by a zero-extended byte in its register. -/
theorem setA (h : Mirrors env g s) (hc : Changes rs s t) {v : Byte}
    (hv : t.registers.get accumulator = v.setWidth 64)
    (hrs : ∀ r ∈ rs, r ∈ accumulator :: freeRegisters) :
    Mirrors env { g with a := v } t :=
  h.rebind hc hrs (fun r hr => by cases r <;> first | rfl | exact absurd rfl hr)
    (fun w hw => by cases hw; exact hv) rfl rfl

/-- A pair other than SP is set, by a zero-extended word in its register. -/
theorem setPair (h : Mirrors env g s) (hc : Changes rs s t) {p : Reg16} (hp : p ≠ .sp)
    {v : BitVec 16} (hv : t.registers.get (pairRegister p) = v.setWidth 64)
    (hrs : ∀ r ∈ rs, r ∈ pairRegister p :: freeRegisters) :
    Mirrors env (g.set16 p v) t := by
  cases p with
  | sp => exact absurd rfl hp
  | _ =>
    exact h.rebind hc hrs (fun r hr => by cases r <;> first | rfl | exact absurd rfl hr)
      (fun w hw => by cases hw; exact hv) rfl rfl

/-- SP is set, by an address in the window. -/
theorem setSp (h : Mirrors env g s) (hc : Changes rs s t) {v : BitVec 16}
    (hv : t.registers.get stackPointer = env.layout.windowBase ||| v.setWidth 64)
    (hrs : ∀ r ∈ rs, r ∈ stackPointer :: freeRegisters) :
    Mirrors env { g with sp := v } t :=
  h.rebind hc hrs (fun r hr => by cases r <;> first | rfl | exact absurd rfl hr)
    (fun w hw => by cases hw; exact hv) rfl rfl

/-- The flags are set, by shadow flags. -/
theorem setFlags (h : Mirrors env g s) (hc : Changes rs s t) {zero carry : Bool}
    (hv : t.registers.get shadowFlags = shadowWord zero carry)
    (hrs : ∀ r ∈ rs, r ∈ shadowFlags :: freeRegisters) :
    Mirrors env { g with zero, carry } t :=
  h.rebind hc hrs (fun r hr => by cases r <;> first | rfl | exact absurd rfl hr)
    (fun w hw => by cases hw; exact hv) rfl rfl

/-- Cycles are counted in the register of the cycle counter. -/
theorem addCycles (h : Mirrors env g s) (hc : Changes rs s t) {n : Nat}
    (hv : t.registers.get cycleCounter = g.cycles + BitVec.ofNat 64 n)
    (hrs : ∀ r ∈ rs, r ∈ cycleCounter :: freeRegisters) :
    Mirrors env (g.addCycles n) t :=
  h.rebind hc hrs (fun r hr => by cases r <;> first | rfl | exact absurd rfl hr)
    (fun w hw => by cases hw; exact hv) rfl rfl

end Mirrors

/-! ### Entering and leaving -/

/-- The guest's F has Z at bit 7 and C at bit 4, and its other bits are dropped. -/
theorem shadowOfGuest_eq (f : HostWord) :
    shadowOfGuest (lowBits 8 f) = shadowWord (f.getLsbD 7) (f.getLsbD 4) := by
  change (lowBits 8 f >>> 1 &&& hostZero) ||| (lowBits 8 f >>> 4 &&& hostCarry) = _
  rw [and_hostZero, and_hostCarry, shadowWord_eq_or (f.getLsbD 7)]
  simp [lowBits]

/-- The guest's F is put together again from the shadow flags. -/
theorem guestOfShadow_shadowWord (g : Interpreter.State σ) :
    guestOfShadow (shadowWord g.zero g.carry) = g.f.setWidth 64 := by
  rw [Interpreter.State.f]
  cases g.zero <;> cases g.carry <;> rfl

/-- The machine state on **entry** to a block stands for the guest processor. -/
theorem mirrors_enter (env : Environment) (c : Cpu) (contextCycles : HostWord) (m : GuestMemory σ) :
    Mirrors env (.ofCpu c contextCycles m) (c.enter env contextCycles m) where
  registers r v hv := by
    cases r <;> cases hv
    case r15 =>
      have h : (c.enter env contextCycles m).registers.get shadowFlags =
          shadowOfGuest (lowBits 8 c.f) := by
        simp [Cpu.enter, Cpu.registers, Registers.get_set]
      exact h.trans (shadowOfGuest_eq c.f)
    all_goals
      simp [Cpu.enter, Cpu.registers, Registers.get_set, pairRegister, lowBits,
        Interpreter.State.ofCpu]
  stack := rfl
  contextCycles := rfl
  memory := rfl

/-- The guest processor on **leaving** a block is the one of the interpreter state, with the program
counter that the block leaves behind. -/
theorem Mirrors.leave {env : Environment} (hsound : env.Sound)
    {g : Interpreter.State σ} {s : State σ}
    (h : Mirrors env g s) {pc : Address} (hpc : (s.registers.get value).setWidth 16 = pc) :
    Cpu.leave s.registers = g.toCpu pc := by
  have hsp : (s.registers.get stackPointer).setWidth 16 = g.sp := h.pairLow hsound .sp
  rw [Cpu.leave, h.a, h.flags, h.pair (by decide), h.pair (by decide), h.pair (by decide), h.cycles,
    guestOfShadow_shadowWord, lowBits, lowBits, hsp, hpc]
  rfl

end Codegen

end Dynarec
