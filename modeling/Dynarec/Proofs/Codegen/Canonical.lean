import Dynarec.Proofs.Codegen.Mirrors

/-!
# Canonical registers

The bound registers are **canonical** (`Canonical`) if they hold guest registers and nothing else:
A and the pairs are zero-extended, the high bits of `r14` are those of the window base, and the
shadow flags have no bit but those of Z and C. Registers are canonical exactly if they stand for
some state of the interpreter (`Mirrors.canonical`, `Canonical.exists_mirrors`).
-/

namespace Dynarec.Codegen

open Bridge (Layout)
open Guest (Reg16)
open Host (Registers)
open Machine (Environment State)

variable {σ : Type}

/-- Whether the bound registers are **canonical**. -/
structure Canonical (layout : Layout) (r : Registers) : Prop where
  accumulator : (r.get .r13).toNat < 0x100
  bc : (r.get .rbx).toNat < 0x10000
  de : (r.get .rbp).toNat < 0x10000
  hl : (r.get .r12).toNat < 0x10000
  stackPointer : ∃ sp : BitVec 16, r.get .r14 = layout.windowBase ||| sp.setWidth 64
  shadowFlags : r.get .r15 &&& ~~~0x41#64 = 0#64

variable {env : Environment} {s : State σ}

theorem toNat_setWidth_lt {w n : Nat} (hw : w ≤ 64) {v : BitVec w} (hv : v.toNat < n) :
    (v.setWidth 64).toNat < n := by
  rwa [BitVec.toNat_setWidth_of_le hw]

theorem shadowWord_and (zero carry : Bool) : shadowWord zero carry &&& ~~~0x41#64 = 0#64 := by
  cases zero <;> cases carry <;> rfl

/-- What a state stands for makes its registers **canonical**: each of them is an image of a guest
register. -/
theorem Mirrors.canonical {g : Interpreter.State σ} (h : Mirrors env g s) :
    Canonical env.layout s.registers where
  accumulator := by
    rw [h.a]
    exact toNat_setWidth_lt (by decide) g.a.isLt
  bc := by
    rw [h.registers .rbx _ rfl]
    exact toNat_setWidth_lt (by decide) g.bc.isLt
  de := by
    rw [h.registers .rbp _ rfl]
    exact toNat_setWidth_lt (by decide) g.de.isLt
  hl := by
    rw [h.registers .r12 _ rfl]
    exact toNat_setWidth_lt (by decide) g.hl.isLt
  stackPointer := ⟨g.sp, h.sp⟩
  shadowFlags := by
    rw [h.flags]
    exact shadowWord_and _ _

/-- The shadow flags are made of two bits. -/
theorem eq_shadowWord {v : HostWord} (h : v &&& ~~~0x41#64 = 0#64) :
    v = shadowWord (v.getLsbD 6) (v.getLsbD 0) := by
  have hmask : v &&& 0x41#64 = v := by
    have hsplit : v = (v &&& 0x41#64) ||| (v &&& ~~~0x41#64) := by
      rw [← BitVec.and_or_distrib_left,
        show 0x41#64 ||| ~~~0x41#64 = BitVec.allOnes 64 from rfl, BitVec.and_allOnes]
    rw [h, BitVec.or_zero] at hsplit
    exact hsplit.symm
  exact hmask.symm.trans (and_hostZero_or_hostCarry v)

theorem eq_setWidth {w : Nat} (hw : w ≤ 64) {v : HostWord} (hv : (v.setWidth w).toNat = v.toNat) :
    v = (v.setWidth w).setWidth 64 := by
  refine BitVec.eq_of_toNat_eq ?_
  rw [BitVec.toNat_setWidth_of_le hw, hv]

/-- Canonical registers **stand for** an interpreter state, which can be read off them. -/
theorem Canonical.exists_mirrors (h : Canonical env.layout s.registers)
    (hrsp : s.registers.get .rsp = env.stackTop) (hstack : s.stack = []) :
    ∃ g, Mirrors env g s := by
  obtain ⟨sp, hsp⟩ := h.stackPointer
  have hlow {w : Nat} {v : HostWord} (hv : v.toNat < 2 ^ w) : (v.setWidth w).toNat = v.toNat := by
    rw [BitVec.toNat_setWidth, Nat.mod_eq_of_lt hv]
  refine ⟨{
    a := (s.registers.get .r13).setWidth 8
    bc := (s.registers.get .rbx).setWidth 16
    de := (s.registers.get .rbp).setWidth 16
    hl := (s.registers.get .r12).setWidth 16
    sp := sp
    zero := (s.registers.get .r15).getLsbD 6
    carry := (s.registers.get .r15).getLsbD 0
    cycles := s.registers.get .r10
    contextCycles := s.contextCycles
    memory := s.memory }, fun r v hv => ?_, hstack, rfl, rfl⟩
  cases r <;> cases hv
  case r13 => exact eq_setWidth (by decide) (hlow h.accumulator)
  case rbx => exact eq_setWidth (by decide) (hlow h.bc)
  case rbp => exact eq_setWidth (by decide) (hlow h.de)
  case r12 => exact eq_setWidth (by decide) (hlow h.hl)
  case r14 => exact hsp
  case r15 => exact eq_shadowWord h.shadowFlags
  case rsp => exact hrsp
  case r10 => rfl

end Dynarec.Codegen
