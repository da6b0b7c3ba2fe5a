import Dynarec.Codegen.Operation
import Dynarec.Proofs.Codegen.Access
import Dynarec.Proofs.Codegen.Flags
import Dynarec.Proofs.Codegen.Registers
import Dynarec.Proofs.Guest.Listing

/-!
# Operands

What the code for operands does: it reads, writes and modifies them as the interpreter does, and
meets the demands of doing so. Operands are those that instructions have: no instruction accesses
memory at SP (`Operand8.IsNamed`).
-/

namespace Dynarec

open Bridge (MemoryInterface)
open Guest (Operand8 Reg16)
open Host (Memory Register Registers)
open Interpreter (demandEvents readDemands writeDemands)
open Machine (Environment State Changes Runs Yields)

namespace Codegen

variable {σ : Type} {env : Environment} {i : MemoryInterface σ} {g g' : Interpreter.State σ}
  {s t : State σ}

/-! ### Pairs -/

/-- **Adjusting a pair** keeps the host flags: it is the addition of an address, of which the low
word is kept. -/
theorem runs_adjustPair (h : Mirrors env g s) {p : Reg16} (hp : p ≠ .sp) (delta : BitVec 32) :
    ∃ t, Runs env i (adjustPair (pairRegister p) delta) s [] t ∧ Changes [pairRegister p] s t ∧
      Mirrors env (g.set16 p (g.get16 p + delta.setWidth 16)) t ∧ t.flags = s.flags := by
  have hchanges := ((Changes.refl [pairRegister p] s).writeRegister List.mem_cons_self .dword
    ((Machine.effectiveAddress s.registers
      ((Memory.ofBase (pairRegister p)).offset delta)).setWidth 32)).setRegister
      List.mem_cons_self ((Registers.read (Machine.writeRegister s .dword
        (pairRegister p) ((Machine.effectiveAddress s.registers
          ((Memory.ofBase (pairRegister p)).offset delta)).setWidth 32)).registers .word
            (pairRegister p)).setWidth 64)
  refine ⟨_, .quiet rfl rfl (.quiet rfl rfl (.nil _)), hchanges, h.setPair hchanges hp ?_ ?_, rfl⟩
  · rw [Machine.get_setRegister, if_pos rfl, Registers.read, Machine.get_writeRegister, if_pos rfl,
      Machine.update_dword, Machine.effectiveAddress_offset, h.pair hp]
    exact congrArg (BitVec.setWidth 64) (low_add_displacement (by simp) delta)
  · exact fun r hr => List.mem_cons.mpr (.inl (List.mem_singleton.mp hr))

/-! ### Addresses -/

/-- The address of high memory at an offset has `0xFF` as its high byte. -/
theorem highAddress_eq (offset : Byte) : 0xFF00#16 ||| offset.setWidth 16 = 0xFF#8 ++ offset := by
  have hconstant : 0xFF00#16 = 0xFF#8 ++ 0#8 := rfl
  have hoffset : offset.setWidth 16 = 0#8 ++ offset := BitVec.setWidth_eq_append (by decide)
  rw [hconstant, hoffset, BitVec.or_append, BitVec.or_zero, BitVec.zero_or]

/-- The address of high memory at C, in its register, put together by a disjunction. -/
theorem highAddress_dword (offset : Byte) :
    (((offset.setWidth 64 : HostWord).setWidth 32 ||| 0xFF00#32).setWidth 64 : HostWord) =
      (0xFF#8 ++ offset).setWidth 64 := by
  rw [← highAddress_eq]
  apply BitVec.eq_of_getLsbD_eq
  intro k hk
  simp
  grind

/-- Putting the address of a memory operand into `rsi`, unless it is known while compiling: then
nothing is done. -/
theorem runs_operandAddress (h : Mirrors env g s) {o : Operand8} (ho : o.IsNamed)
    (hmemory : o.isMemory = true) :
    ∃ t, Runs env i (operandAddress o).1 s [] t ∧ Changes [address] s t ∧
      (operandAddress o).2.Holds t (Interpreter.operandAddress g o) := by
  have hpair {p : Reg16} (hp : p ≠ .sp) :
      ∃ t, Runs env i [.mov .dword address (.register (pairRegister p))] s [] t ∧
        Changes [address] s t ∧ t.registers.get address = (g.get16 p).setWidth 64 := by
    refine ⟨_, .quiet rfl rfl (.nil _), (Changes.refl _ s).writeRegister List.mem_cons_self _ _, ?_⟩
    rw [Machine.get_writeRegister, if_pos rfl]
    simp [Registers.read, h.pair hp]
  cases o with
  | register r => cases hmemory
  | immediate v => cases hmemory
  | indirectHl => exact hpair (p := .hl) (by decide)
  | indirectHlIncrement => exact hpair (p := .hl) (by decide)
  | indirectHlDecrement => exact hpair (p := .hl) (by decide)
  | indirect p => exact hpair fun hp => ho (hp ▸ rfl)
  | absolute a => exact ⟨s, .nil s, Changes.refl _ s, rfl⟩
  | highAbsolute offset => exact ⟨s, .nil s, Changes.refl _ s, highAddress_eq offset⟩
  | highC =>
    obtain ⟨u, hu, hchanges, hvalue, -⟩ := runs_load8 (i := i) h .c address
    refine ⟨_, hu.append_quiet (.quiet (Machine.execute_alu rfl _ _ _) rfl (.nil _)),
      (hchanges.setFlags _).writeRegister List.mem_cons_self _ _, ?_⟩
    rw [GuestAddress.Holds.eq_def]
    simp only [operandAddress, Machine.get_writeRegister, if_true, Machine.update_dword,
      Machine.sourceValue_immediate, Registers.read, hvalue, Host.AluOp.apply]
    exact highAddress_dword _

/-- What happens to HL after an access: it moves up or down for the operands that say so. -/
theorem runs_afterAccess (h : Mirrors env g s) (o : Operand8) :
    ∃ t, Runs env i (afterAccess o) s [] t ∧ Changes [pairRegister .hl] s t ∧
      Mirrors env (Interpreter.afterAccess g o) t := by
  cases o with
  | indirectHlIncrement =>
    obtain ⟨t, ht, hchanges, hmirrors, -⟩ := runs_adjustPair (i := i) h (p := .hl) (by decide) 1
    exact ⟨t, ht, hchanges, hmirrors⟩
  | indirectHlDecrement =>
    obtain ⟨t, ht, hchanges, hmirrors, -⟩ := runs_adjustPair (i := i) h (p := .hl) (by decide) (-1)
    have hsub : Interpreter.afterAccess g .indirectHlDecrement =
        g.set16 .hl (g.get16 .hl + (-1#32).setWidth 16) := by
      rw [Interpreter.afterAccess, Interpreter.State.set16, Interpreter.State.get16,
        BitVec.sub_eq_add_neg]
      rfl
    exact ⟨t, ht, hchanges, hsub ▸ hmirrors⟩
  | _ => exact ⟨s, .nil s, Changes.refl _ s, h⟩

/-- Memory is never accessed without touching the host flags, since the address is compared or a
handler is called. -/
theorem isMemory_of_isNeutral {o : Operand8} (h : isNeutralOperand o = true) :
    o.isMemory = false := by
  cases o with
  | register r => rfl
  | immediate v => rfl
  | _ => cases h

/-! ### Reading -/

/-- Code for a memory operand. -/
theorem readOperand_memory (i : MemoryInterface σ) (layout : Bridge.Layout)
    (g : Interpreter.State σ)
    {o : Operand8} (hmemory : o.isMemory = true) :
    readOperand layout o = .straight (operandAddress o).1 ++ read8 layout (operandAddress o).2 ++
        .straight (afterAccess o) ∧
      Interpreter.readOperand i g o = ((g.read8 i (Interpreter.operandAddress g o)).1,
        Interpreter.afterAccess (g.read8 i (Interpreter.operandAddress g o)).2 o) := by
  refine ⟨?_, Interpreter.readOperand_of_isMemory g hmemory⟩
  cases o with
  | register r => cases hmemory
  | immediate v => cases hmemory
  | _ => rfl

/-- **Reading an operand** puts it into its register, zero-extended, with the demands that the
operand makes. The host flags are kept for the operands that allow it. -/
theorem yields_readOperand (hsound : env.Sound) (h : Mirrors env g s) {o : Operand8}
    (ho : o.IsNamed) :
    ∃ t, Yields env i (readOperand env.layout o) s (demandEvents (readDemands g o)) .through t ∧
      Mirrors env (Interpreter.readOperand i g o).2 t ∧
      t.registers.get (operandRegister o) = (Interpreter.readOperand i g o).1.setWidth 64 ∧
      (isNeutralOperand o = true → t.flags = s.flags) := by
  by_cases hmemory : o.isMemory = true
  · -- an operand in memory: its address is put into place, and HL may move after the access
    obtain ⟨hcode, hread⟩ := readOperand_memory i env.layout g hmemory
    obtain ⟨s₁, hs₁, hchanges₁, haddress⟩ := runs_operandAddress (i := i) h ho hmemory
    obtain ⟨s₂, hs₂, hmirrors₂, hresult⟩ :=
      yields_read8 (i := i) hsound (h.free hchanges₁ (by decide)) haddress
    obtain ⟨t, ht, hchanges, hmirrors⟩ := runs_afterAccess (i := i) hmirrors₂ o
    refine ⟨t, ?_, by rw [hread]; exact hmirrors, ?_, fun hneutral => ?_⟩
    · rw [hcode, readDemands, if_pos hmemory]
      exact (Yields.append_quiet (.straight hs₁) hs₂).append_quiet_right (.straight ht)
    · rw [operandRegister, if_pos hmemory, hchanges.registers _ (by decide), hresult, hread]
    · rw [isMemory_of_isNeutral hneutral] at hmemory
      cases hmemory
  · cases o with
    | register r =>
      obtain ⟨t, ht, hchanges, hvalue, hflags⟩ := runs_load8 (i := i) h r operand
      exact ⟨t, .straight ht, h.free hchanges (by decide), hvalue, hflags⟩
    | immediate v =>
      have hchanges := (Changes.refl [operand] s).writeRegister List.mem_cons_self .dword
        (Machine.sourceValue s .dword (.immediate (v.setWidth 64)))
      refine ⟨_, .straight (.quiet rfl rfl (.nil _)), h.free hchanges (by decide), ?_, fun _ => rfl⟩
      rw [operandRegister, if_neg hmemory, Machine.get_writeRegister, if_pos rfl]
      simp [Interpreter.readOperand]
    | _ => exact absurd rfl hmemory

/-! ### Writing -/

theorem writeOperand_memory (i : MemoryInterface σ) (layout : Bridge.Layout)
    (g : Interpreter.State σ)
    (src : Register) (v : Byte) {o : Operand8} (hmemory : o.isMemory = true) :
    writeOperand layout o src =
        .straight ((if src = value then [] else [.mov .dword value (.register src)]) ++
          (operandAddress o).1) ++ write8 layout (operandAddress o).2 ++ .straight (afterAccess o) ∧
      Interpreter.writeOperand i g v o =
        Interpreter.afterAccess (g.write8 i (Interpreter.operandAddress g o) v) o := by
  refine ⟨?_, Interpreter.writeOperand_of_isMemory g v hmemory⟩
  cases o with
  | register r => cases hmemory
  | immediate v => cases hmemory
  | _ => rfl

variable (env i) in
/-- The byte to be written is put into `rdx`. -/
theorem runs_moveValue (src : Register) {v : Byte} (hv : (s.registers.get src).setWidth 8 = v) :
    ∃ t, Runs env i (if src = value then [] else [.mov .dword value (.register src)]) s [] t ∧
      Changes [value] s t ∧ (t.registers.get value).setWidth 8 = v := by
  by_cases hsrc : src = value
  · rw [if_pos hsrc, ← hsrc]
    exact ⟨s, .nil s, Changes.refl _ s, hv⟩
  · rw [if_neg hsrc]
    refine ⟨_, .quiet rfl rfl (.nil _), (Changes.refl _ s).writeRegister List.mem_cons_self _ _, ?_⟩
    rw [Machine.get_writeRegister, if_pos rfl, ← hv]
    simp [Registers.read]

/-- Writing a register, or a constant, leaves captured flags alone, so that these can be committed
afterwards. -/
theorem yields_writeRegister (h : Mirrors env g s) {o : Operand8} (ho : o.isMemory = false)
    {src : Register} (hsrc : src ∈ freeRegisters) {v : Byte}
    (hv : (s.registers.get src).setWidth 8 = v) :
    ∃ t, Yields env i (writeOperand env.layout o src) s [] .through t ∧
      Mirrors env (Interpreter.writeOperand i g v o) t ∧
      t.registers.get capturedFlags = s.registers.get capturedFlags ∧
      (isNeutralOperand o = true → t.flags = s.flags) := by
  cases o with
  | register r =>
    obtain ⟨t, ht, hchanges, hmirrors, hflags⟩ := runs_store8 (i := i) h r hsrc hv
    exact ⟨t, .straight ht, hmirrors, hchanges.registers _ (by cases r <;> decide), hflags⟩
  | immediate w => exact ⟨s, .empty s, h, rfl, fun _ => rfl⟩
  | _ => cases ho

/-- **Writing** a byte **to an operand** from a free register, with the demands that the operand
makes. -/
theorem yields_writeOperand (hsound : env.Sound) (h : Mirrors env g s) {o : Operand8}
    (ho : o.IsNamed)
    {src : Register} (hsrc : src ∈ freeRegisters) {v : Byte}
    (hv : (s.registers.get src).setWidth 8 = v) :
    ∃ t, Yields env i (writeOperand env.layout o src) s (demandEvents (writeDemands g v o))
      .through t ∧
      Mirrors env (Interpreter.writeOperand i g v o) t ∧
      (isNeutralOperand o = true → t.flags = s.flags) := by
  by_cases hmemory : o.isMemory = true
  · obtain ⟨hcode, hwrite⟩ := writeOperand_memory i env.layout g src v hmemory
    obtain ⟨s₁, hs₁, hchanges₁, hvalue⟩ := runs_moveValue env i src hv
    obtain ⟨s₂, hs₂, hchanges₂, haddress⟩ :=
      runs_operandAddress (i := i) (h.free hchanges₁ (by decide)) ho hmemory
    obtain ⟨s₃, hs₃, hmirrors₃⟩ :=
      yields_write8 (i := i) hsound ((h.free hchanges₁ (by decide)).free hchanges₂ (by decide))
      haddress (v := v) (by rw [hchanges₂.registers _ (by decide), hvalue])
    obtain ⟨t, ht, -, hmirrors⟩ := runs_afterAccess (i := i) hmirrors₃ o
    refine ⟨t, ?_, by rw [hwrite]; exact hmirrors, fun hneutral => ?_⟩
    · rw [hcode, writeDemands, if_pos hmemory]
      exact (Yields.append_quiet (.straight (hs₁.append_quiet hs₂)) hs₃).append_quiet_right
        (.straight ht)
    · rw [isMemory_of_isNeutral hneutral] at hmemory
      cases hmemory
  · obtain ⟨t, ht, hmirrors, -, hflags⟩ :=
      yields_writeRegister (i := i) h (Bool.eq_false_iff.mpr hmemory) hsrc hv
    rw [writeDemands, if_neg hmemory]
    exact ⟨t, ht, hmirrors, hflags⟩

/-! ### Modifying -/

theorem operandRegister_mem (o : Operand8) : operandRegister o ∈ freeRegisters := by
  rw [operandRegister]
  split <;> decide

/-- Writing a register and committing flags commute. -/
theorem FlagRule.apply_writeOperand (i : MemoryInterface σ) (rule : FlagRule)
    (g : Interpreter.State σ)
    (zero carry : Bool) (v : Byte) {o : Operand8} (ho : o.isMemory = false) :
    Interpreter.writeOperand i (rule.apply g zero carry) v o =
      rule.apply (Interpreter.writeOperand i g v o) zero carry := by
  -- no rule writes a register, and no register holds a flag
  cases o with
  | register r => cases r <;> cases rule <;> rfl
  | immediate w => rfl
  | _ => cases ho

/-- Modifying an operand **without flags**: it is read, changed in its register and written back. -/
theorem yields_modifyOperand_none (hsound : env.Sound) (h : Mirrors env g s) {o : Operand8}
    (ho : o.IsNamed) {change : Register → List Host.Instruction} {f : Byte → Byte}
    (hchange : ∀ r t (v : Byte), t.registers.get r = v.setWidth 64 →
      ∃ u, Runs env i (change r) t [] u ∧ Changes [r] t u ∧ (u.registers.get r).setWidth 8 = f v) :
    ∃ t, Yields env i (modifyOperand env.layout o none change) s
        (demandEvents (Interpreter.modifyDemands i g o fun g v => (f v, g))) .through t ∧
      Mirrors env (Interpreter.modifyOperand i g o fun g v => (f v, g)) t := by
  obtain ⟨s₁, hs₁, hmirrors₁, hvalue₁, -⟩ := yields_readOperand (i := i) hsound h ho
  obtain ⟨s₂, hs₂, hchanges₂, hvalue₂⟩ := hchange _ s₁ _ hvalue₁
  obtain ⟨t, ht, hmirrors, -⟩ := yields_writeOperand (i := i) hsound
    (hmirrors₁.free hchanges₂ fun r hr => List.mem_singleton.mp hr ▸ operandRegister_mem o) ho
    (operandRegister_mem o) hvalue₂
  refine ⟨t, ?_, hmirrors⟩
  rw [Interpreter.modifyDemands, Interpreter.demandEvents_append]
  exact (hs₁.append_quiet_right (.straight hs₂)).append ht

/-- Modifying an operand **with flags**. A register is synced afterwards. Memory is not: its flags
are committed before it is written, and the access touches the host flags again. -/
theorem yields_modifyOperand_some (hsound : env.Sound) (h : Mirrors env g s) {o : Operand8}
    (ho : o.IsNamed) (rule : FlagRule) (change : Register → List Host.Instruction)
    {f : Interpreter.State σ → Byte → Interpreter.Flagged}
    (hchange : ∀ g t (v : Byte), Mirrors env g t →
      t.registers.get (operandRegister o) = v.setWidth 64 →
      ∃ u, Runs env i (change (operandRegister o)) t [] u ∧
        Changes [operandRegister o, capturedFlags, scratchFlags] t u ∧
        (u.registers.get (operandRegister o)).setWidth 8 = (f g v).value ∧
        (u.registers.get capturedFlags).getLsbD 6 = (f g v).zero ∧
        (u.registers.get capturedFlags).getLsbD 0 = (f g v).carry) :
    ∃ t, Yields env i (modifyOperand env.layout o (some rule) change) s
        (demandEvents (Interpreter.modifyDemands i g o fun g v =>
          ((f g v).value, rule.apply g (f g v).zero (f g v).carry))) .through t ∧
      Mirrors env (Interpreter.modifyOperand i g o fun g v =>
        ((f g v).value, rule.apply g (f g v).zero (f g v).carry)) t ∧
      (o.isMemory = false → Synced t) := by
  have hfree := operandRegister_mem o
  obtain ⟨s₁, hs₁, hmirrors₁, hvalue₁, -⟩ := yields_readOperand (i := i) hsound h ho
  obtain ⟨s₂, hs₂, hchanges₂, hvalue₂, hzero, hcarry⟩ := hchange _ s₁ _ hmirrors₁ hvalue₁
  have hmirrors₂ := hmirrors₁.free hchanges₂ fun r hr => by
    simp only [List.mem_cons, List.not_mem_nil, or_false] at hr
    rcases hr with rfl | rfl | rfl
    · exact hfree
    · decide
    · decide
  have hchanged := hs₁.append_quiet_right (Yields.straight hs₂)
  rw [Interpreter.modifyDemands, Interpreter.demandEvents_append]
  by_cases hmemory : o.isMemory = true
  · -- memory: the flags are committed first, since a handler call spoils the captured ones
    obtain ⟨s₃, hs₃, hchanges₃, hmirrors₃, -⟩ :=
      runs_commitFlags (i := i) hmirrors₂ rule hzero hcarry
    have hkept : operandRegister o ∉ [capturedFlags, shadowFlags] := by
      rw [operandRegister, if_pos hmemory]
      decide
    obtain ⟨t, ht, hmirrors, -⟩ := yields_writeOperand (i := i) hsound hmirrors₃ ho hfree
      (by rw [hchanges₃.registers _ hkept, hvalue₂])
    refine ⟨t, ?_, hmirrors, fun hregister => ?_⟩
    · simp only [modifyOperand, hmemory, if_true]
      exact (hchanged.append_quiet_right (.straight hs₃)).append ht
    · rw [hregister] at hmemory
      cases hmemory
  · -- a register: the flags are committed last, so that the host's own are synced
    have hregister : o.isMemory = false := Bool.eq_false_iff.mpr hmemory
    obtain ⟨s₃, hs₃, hmirrors₃, hcaptured, -⟩ :=
      yields_writeRegister (i := i) hmirrors₂ hregister hfree hvalue₂
    obtain ⟨t, ht, -, hmirrors, hsynced⟩ := runs_commitFlags (i := i) hmirrors₃ rule
      (by rw [hcaptured, hzero]) (by rw [hcaptured, hcarry])
    refine ⟨t, ?_, ?_, fun _ => hsynced⟩
    · simp only [modifyOperand, hregister, Bool.false_eq_true, if_false, writeDemands,
        Interpreter.demandEvents_nil, List.append_nil]
      exact (hchanged.append_quiet_right hs₃).append_quiet_right (.straight ht)
    · rw [← FlagRule.apply_writeOperand _ _ _ _ _ _ hregister] at hmirrors
      exact hmirrors

end Codegen

end Dynarec
