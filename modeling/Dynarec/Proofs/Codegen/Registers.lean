import Dynarec.Proofs.Codegen.Slots

/-!
# Moving guest registers

What the instruction sequences of `Codegen.Binding` do: they read and write guest registers in a
mirrored state. Each lemma names the registers that change, and the case in which the host flags are
kept.
-/

namespace Dynarec.Codegen

open Bridge (MemoryInterface)
open Guest (Reg8 Reg16)
open Host (Register Registers Size)
open Machine (Environment State Changes Runs)

variable {σ : Type} {env : Environment} {i : MemoryInterface σ} {g : Interpreter.State σ}
  {s : State σ}

/-! ### Bytes -/

/-- The view of an 8 bit register is its value. -/
theorem Mirrors.byteView_eq (h : Mirrors env g s) (r : Reg8) :
    byteView s.registers r = g.get8 r := by
  have hword {p : Reg16} (hp : p ≠ .sp) :
      (s.registers.get (pairRegister p)).setWidth 16 = g.get16 p := by
    rw [h.pair hp, BitVec.setWidth_setWidth_of_le _ (by decide), BitVec.setWidth_eq]
  have hhigh {p : Reg16} (hp : p ≠ .sp) (hr : slot r = .high (pairRegister p)) :
      byteView s.registers r = (g.get16 p).extractLsb' 8 8 := by
    rw [byteView_of_high hr, hword hp]
  have hlow {p : Reg16} (hp : p ≠ .sp) (hr : slot r = .low (pairRegister p)) :
      byteView s.registers r = (g.get16 p).extractLsb' 0 8 := by
    rw [byteView_of_low hr, hword hp]
  cases r with
  | a =>
    have hbyte : (g.a.setWidth 64).setWidth 8 = g.a := by
      rw [BitVec.setWidth_setWidth_of_le _ (by decide), BitVec.setWidth_eq]
    exact (congrArg (BitVec.setWidth 8) h.a).trans hbyte
  | b => exact hhigh (p := .bc) (by decide) rfl
  | c => exact hlow (p := .bc) (by decide) rfl
  | d => exact hhigh (p := .de) (by decide) rfl
  | e => exact hlow (p := .de) (by decide) rfl
  | h => exact hhigh (p := .hl) (by decide) rfl
  | l => exact hlow (p := .hl) (by decide) rfl

/-- **Reading** an 8 bit register. -/
theorem runs_load8 (h : Mirrors env g s) (r : Reg8) (dst : Register) :
    ∃ t, Runs env i (load8 r dst) s [] t ∧ Changes [dst] s t ∧
      t.registers.get dst = (g.get8 r).setWidth 64 ∧ (isDirect r = true → t.flags = s.flags) := by
  rw [← h.byteView_eq r]
  exact runs_load8_view env i h.canonical.zeroExtended r dst

/-- **Writing** an 8 bit register. -/
theorem runs_store8 (h : Mirrors env g s) (r : Reg8) {src : Register} (hsrc : src ∈ freeRegisters)
    {v : Byte} (hv : (s.registers.get src).setWidth 8 = v) :
    ∃ t, Runs env i (store8 r src) s [] t ∧ Changes [slotRegister r] s t ∧
      Mirrors env (g.set8 r v) t ∧ (isDirect r = true → t.flags = s.flags) := by
  -- a free register is none that a guest register lives in
  have hne : src ≠ slotRegister r := by
    rintro rfl
    revert hsrc
    cases r <;> decide
  obtain ⟨t, hruns, hchanges, hput, hflags⟩ := runs_store8_slot env i s r hne
  rw [hv] at hput
  refine ⟨t, hruns, hchanges, ?_, hflags⟩
  have hhigh {p : Reg16} (hp : p ≠ .sp) (hc : Changes [pairRegister p] s t)
      (hput : t.registers.get (pairRegister p) =
        (Slot.high (pairRegister p)).put (s.registers.get (pairRegister p)) v) :
      Mirrors env (g.set16 p (v ++ (g.get16 p).extractLsb' 0 8)) t := by
    rw [h.pair hp, Slot.put_high_of_pair] at hput
    exact h.setPair hc hp hput (by simp)
  have hlow {p : Reg16} (hp : p ≠ .sp) (hc : Changes [pairRegister p] s t)
      (hput : t.registers.get (pairRegister p) =
        (Slot.low (pairRegister p)).put (s.registers.get (pairRegister p)) v) :
      Mirrors env (g.set16 p ((g.get16 p).extractLsb' 8 8 ++ v)) t := by
    rw [h.pair hp, Slot.put_low_of_pair] at hput
    exact h.setPair hc hp hput (by simp)
  cases r with
  | a => exact h.setA hchanges hput (by decide)
  | b => exact hhigh (p := .bc) (by decide) hchanges hput
  | c => exact hlow (p := .bc) (by decide) hchanges hput
  | d => exact hhigh (p := .de) (by decide) hchanges hput
  | e => exact hlow (p := .de) (by decide) hchanges hput
  | h => exact hhigh (p := .hl) (by decide) hchanges hput
  | l => exact hlow (p := .hl) (by decide) hchanges hput

/-! ### Words -/

/-- The low word of a sum with a displacement. -/
theorem low_add_displacement {base : HostWord} {v : BitVec 16} (hbase : base.setWidth 16 = v)
    (delta : BitVec 32) :
    ((((base + delta.signExtend 64).setWidth 32).setWidth 64 : HostWord).setWidth 16) =
      v + delta.setWidth 16 := by
  have hdelta : (delta.signExtend 64).setWidth 16 = delta.setWidth 16 :=
    (Host.low_signExtend delta (by decide)).trans
    (BitVec.signExtend_eq_setWidth_of_le delta (by decide))
  simp [BitVec.setWidth_add, hbase, hdelta]

/-- **Reading** a register pair. -/
theorem runs_load16 (hsound : env.Sound) (h : Mirrors env g s) (p : Reg16) (dst : Register) :
    ∃ t, Runs env i (load16 p dst) s [] t ∧ Changes [dst] s t ∧
      t.registers.get dst = (g.get16 p).setWidth 64 ∧ t.flags = s.flags := by
  rw [← h.pairLow hsound p]
  exact runs_load16_word env i s p dst

/-- Writing the low word of `r14` moves SP and keeps the window base. -/
theorem update_sp {base : HostWord} (hbase : base.setWidth 16 = 0#16) (sp v : BitVec 16) :
    ((base ||| sp.setWidth 64) >>> 16) <<< 16 ||| v.setWidth 64 = base ||| v.setWidth 64 := by
  apply BitVec.eq_of_getLsbD_eq
  intro k hk
  have hlow : k < 16 → base.getLsbD k = false := fun hk' => by
    have := congrArg (·.getLsbD k) hbase
    simpa [hk'] using this
  simp
  grind

/-- **Writing** a register pair. -/
theorem runs_store16 (hsound : env.Sound) (h : Mirrors env g s) (p : Reg16) {src : Register}
    {v : BitVec 16} (hv : (s.registers.get src).setWidth 16 = v) :
    ∃ t, Runs env i (store16 p src) s [] t ∧ Changes [pairRegister p] s t ∧
      Mirrors env (g.set16 p v) t ∧ t.flags = s.flags := by
  obtain ⟨t, hruns, hchanges, hvalue, hflags⟩ := runs_store16_word env i s p src
  rw [hv] at hvalue
  refine ⟨t, hruns, hchanges, ?_, hflags⟩
  cases p with
  | sp =>
    -- SP is the low word of its register, below the window base
    refine h.setSp hchanges (hvalue.trans ?_) (by decide)
    rw [pairRegister, h.sp]
    exact update_sp hsound.windowAligned g.sp v
  | bc => exact h.setPair hchanges (p := .bc) (by decide) hvalue (by decide)
  | de => exact h.setPair hchanges (p := .de) (by decide) hvalue (by decide)
  | hl => exact h.setPair hchanges (p := .hl) (by decide) hvalue (by decide)

end Dynarec.Codegen
