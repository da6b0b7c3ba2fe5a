import Dynarec.Proofs.Codegen.Arithmetic
import Dynarec.Proofs.Codegen.Exits

/-!
# Code for operations

The code of every operation performs it (`performs_operationBody`): one case for each operation, put
together from what is known about operands, arithmetic, the stack and exits. The code of an
instruction counts its cycles besides (`performs_operationCode`).
-/

namespace Dynarec

open Bridge (MemoryInterface)
open Guest (Operation Operand8 Placed Reg16 ShiftOp)
open Interpreter (Exit demandEvents)
open Machine (Environment State Changes Runs Yields)

/-! ### Cycles -/

theorem Guest.Operand8.accessCycles_le (o : Operand8) : o.accessCycles ≤ 12 := by
  cases o <;> simp [accessCycles]

/-- No operation counts so many cycles that they would not fit a displacement with its sign. -/
theorem Guest.Operation.cycles_lt (operation : Operation) :
    operation.cycles.base < 0x80000000 ∧ operation.cycles.branchTaken < 0x80000000 := by
  cases operation with
  | load dst src =>
    have := dst.accessCycles_le
    have := src.accessCycles_le
    simp only [cycles]
    omega
  | alu op o | increment o | decrement o | shift op o | bit index o | reset index o | set index o =>
    have := o.accessCycles_le
    simp only [cycles]
    omega
  | jump condition | jumpRelative condition | call condition | ret condition =>
    cases condition <;> simp [cycles]
  | _ => simp [cycles]

namespace Codegen

variable {σ : Type} {env : Environment} {i : MemoryInterface σ} {g : Interpreter.State σ}
  {s : State σ}

/-! ### Loads -/

/-- Writing a register leaves the flags alone. -/
theorem zero_writeOperand (g : Interpreter.State σ) (v : Byte) {o : Operand8}
    (ho : o.isMemory = false) :
    (Interpreter.writeOperand i g v o).zero = g.zero ∧
      (Interpreter.writeOperand i g v o).carry = g.carry := by
  cases o with
  | register r => cases r <;> exact ⟨rfl, rfl⟩
  | immediate w => exact ⟨rfl, rfl⟩
  | _ => cases ho

/-- `LD dst, src` keeps the host flags if both operands can be moved without touching them: neither
of them is in memory or a high half. -/
theorem yields_load (hsound : env.Sound) (h : Mirrors env g s) {dst src : Operand8}
    (hdst : dst.IsNamed) (hsrc : src.IsNamed) :
    ∃ t, Yields env i (readOperand env.layout src ++
      writeOperand env.layout dst (operandRegister src)) s
        (demandEvents (Interpreter.readDemands g src ++ Interpreter.writeDemands
          (Interpreter.readOperand i g src).2 (Interpreter.readOperand i g src).1 dst)) .through t ∧
      Mirrors env (Interpreter.writeOperand i (Interpreter.readOperand i g src).2
        (Interpreter.readOperand i g src).1 dst) t ∧
      (isNeutralOperand dst = true → isNeutralOperand src = true → Synced s → Synced t) := by
  obtain ⟨u, hu, hmirrors, hvalue, hflags⟩ := yields_readOperand (i := i) hsound h hsrc
  obtain ⟨t, ht, hmirrors', hflags'⟩ := yields_writeOperand (i := i) hsound hmirrors hdst
    (operandRegister_mem src) (v := (Interpreter.readOperand i g src).1)
    (by rw [hvalue]; exact low_extended _)
  refine ⟨t, ?_, hmirrors', fun hneutral hneutral' hsynced => ?_⟩
  · rw [Interpreter.demandEvents_append]
    exact hu.append ht
  · rw [Interpreter.readOperand_of_not_isMemory g (isMemory_of_isNeutral hneutral')] at hmirrors'
    obtain ⟨hzero, hcarry⟩ := zero_writeOperand (i := i) g (Interpreter.readOperand i g src).1
      (isMemory_of_isNeutral hneutral)
    exact hsynced.of_flags h hmirrors' hzero hcarry ((hflags' hneutral).trans (hflags hneutral'))

/-- `LD rr, nn` keeps the host flags. -/
theorem yields_loadImmediate16 (h : Mirrors env g s) (p : Reg16) (v : BitVec 16)
    (before : HostFlags)
    (next : Address) :
    ∃ t, Yields env i (operationBody env.layout before next (.loadImmediate16 p v)) s []
      .through t ∧
      Mirrors env (g.set16 p v) t ∧ t.flags = s.flags := by
  have hpair (hp : p ≠ .sp) : ∃ t,
      Yields env i (.straight [.mov .dword (pairRegister p) (.immediate (v.setWidth 64))]) s []
        .through t ∧
        Mirrors env (g.set16 p v) t ∧ t.flags = s.flags := by
    have hchanges := (Changes.refl [pairRegister p] s).writeRegister List.mem_cons_self .dword
      (Machine.sourceValue s .dword (.immediate (v.setWidth 64)))
    exact ⟨_, .straight (.quiet rfl rfl (.nil _)), h.setPair hchanges hp (by simp)
      fun r hr => List.mem_cons.mpr (.inl (List.mem_singleton.mp hr)), rfl⟩
  cases p with
  | sp =>
    obtain ⟨t, ht, hmirrors, -, hflags⟩ := runs_loadStackPointerConstant (i := i) h v
    exact ⟨t, .straight ht, hmirrors, hflags⟩
  | _ => exact hpair (by decide)

/-! ### Arithmetic -/

/-- An accumulator operation with an operand, which is read before the flags are set. -/
theorem yields_alu (hsound : env.Sound) (h : Mirrors env g s) (op : Guest.AluOp) {src : Operand8}
    (hsrc : src.IsNamed) :
    ∃ t, Yields env i (aluCode env.layout op src) s (demandEvents (Interpreter.readDemands g src))
        .through t ∧
      Mirrors env (Interpreter.accumulate (Interpreter.readOperand i g src).2 op
        (Interpreter.readOperand i g src).1) t ∧ Synced t := by
  obtain ⟨u, hu, hmirrors, hvalue, -⟩ := yields_readOperand (i := i) hsound h hsrc
  obtain ⟨t, ht, hmirrors', hsynced⟩ := runs_accumulate (i := i) hmirrors op hvalue
  exact ⟨t, hu.append_quiet_right (.straight ht), hmirrors', hsynced⟩

/-- `BIT n` on an operand, which is read only. -/
theorem yields_bit (hsound : env.Sound) (h : Mirrors env g s) (index : BitVec 3) {o : Operand8}
    (ho : o.IsNamed) :
    ∃ t, Yields env i (readOperand env.layout o ++
        .straight (.test .byte (operandRegister o) (.immediate ((bitMask index).setWidth 64)) ::
          updateFlags .zeroKeepCarry)) s (demandEvents (Interpreter.readDemands g o)) .through t ∧
      Mirrors env { (Interpreter.readOperand i g o).2 with
        zero := !(Interpreter.readOperand i g o).1.getLsbD index.toNat } t ∧ Synced t := by
  obtain ⟨u, hu, hmirrors, hvalue, -⟩ := yields_readOperand (i := i) hsound h ho
  obtain ⟨t, ht, hmirrors', hsynced⟩ := runs_testBit (i := i) hmirrors index hvalue
  exact ⟨t, hu.append_quiet_right (.straight ht), hmirrors', hsynced⟩

/-- No operand is read to a register in which flags are captured. -/
theorem operandRegister_not_mem (o : Operand8) :
    operandRegister o ∉ [capturedFlags, scratchFlags] := by
  rw [operandRegister]
  split <;> decide

/-- Adding a constant defines Z and keeps C. -/
theorem sum_zeroKeepCarry (g : Interpreter.State σ) (v w : Byte) :
    ((Interpreter.Flagged.sum v w false).value,
      FlagRule.zeroKeepCarry.apply g (Interpreter.Flagged.sum v w false).zero
        (Interpreter.Flagged.sum v w false).carry) =
          (v + w, { g with zero := decide (v + w = 0) }) := by
  have hvalue : (Interpreter.Flagged.sum v w false).value = v + w := by
    rw [value_sum]
    exact BitVec.add_zero _
  have hzero : (Interpreter.Flagged.sum v w false).zero =
      decide ((Interpreter.Flagged.sum v w false).value = 0) := rfl
  rw [hzero, hvalue]
  rfl

/-- `INC` and `DEC` on an operand: they are additions of a constant, of which the carry is not
used. -/
theorem yields_increment (hsound : env.Sound) (h : Mirrors env g s) {o : Operand8} (ho : o.IsNamed)
    (delta : HostWord) {w : Byte} (hw : delta.setWidth 8 = w) :
    ∃ t, Yields env i (incrementCode env.layout o delta) s
        (demandEvents (Interpreter.modifyDemands i g o fun g v =>
          (v + w, { g with zero := decide (v + w = 0) }))) .through t ∧
      Mirrors env (Interpreter.modifyOperand i g o fun g v =>
        (v + w, { g with zero := decide (v + w = 0) })) t ∧
      (o.isMemory = false → Synced t) := by
  have hne : operandRegister o ≠ capturedFlags := fun he => operandRegister_not_mem o (by simp [he])
  have hyields := yields_modifyOperand_some (i := i) hsound h ho .zeroKeepCarry
    (fun r => .alu .add .byte r (.immediate delta) :: captureFlags)
    (f := fun _ v => Interpreter.Flagged.sum v (delta.setWidth 8) false)
    fun g t v h' hv => runs_incrementRegister h' (operandRegister_mem o) hne delta hv
  rw [incrementCode]
  simpa only [sum_zeroKeepCarry, hw] using hyields

/-- Shifts and rotations on an operand. The flags are captured before it is written back. -/
theorem yields_shift (hsound : env.Sound) (h : Mirrors env g s) (op : ShiftOp) {o : Operand8}
    (ho : o.IsNamed) :
    ∃ t, Yields env i (modifyOperand env.layout o (some .zeroAndCarry) (shiftRegister op)) s
        (demandEvents (Interpreter.modifyDemands i g o fun g v =>
          let r := Interpreter.shift op v g.carry
          (r.value, Interpreter.setFlags g r.zero r.carry))) .through t ∧
      Mirrors env (Interpreter.modifyOperand i g o fun g v =>
        let r := Interpreter.shift op v g.carry
        (r.value, Interpreter.setFlags g r.zero r.carry)) t ∧
      (o.isMemory = false → Synced t) :=
  yields_modifyOperand_some (i := i) hsound h ho .zeroAndCarry (shiftRegister op)
    fun _ _ _ h' hv => runs_shiftRegister h' op (operandRegister_mem o)
      (operandRegister_not_mem o) hv

/-! ### All operations -/

/-- **The code of an operation performs it**: it leaves the block as the operation does, with the
same demands, or stays in it. There is one case for each operation. -/
theorem performs_operationBody (hsound : env.Sound) (h : Mirrors env g s) {before : HostFlags}
    (hbefore : before = .synced → Synced s) (next : Address) {operation : Operation}
    (hwell : operation.WellFormed) :
    Performs env i (operationBody env.layout before next operation) s
      (demandEvents (Interpreter.performDemands i next operation g)) (before.after operation)
      (Interpreter.perform i next operation g) := by
  have hneutral {t : State σ} {g' : Interpreter.State σ} (h' : Mirrors env g' t)
      (hflags : t.flags = s.flags) (hzero : g'.zero = g.zero) (hcarry : g'.carry = g.carry) :
      before = .synced → Synced t := fun hb => (hbefore hb).of_flags h h' hzero hcarry hflags
  obtain ⟨-, htaken⟩ := operation.cycles_lt
  cases operation with
  | nop => exact .through (.empty s) h rfl rfl hbefore
  | daa => exact .through (.empty s) h rfl rfl of_clobbered_eq_synced
  | stop => exact .left (yields_leaveFor h next .stop) rfl rfl
  | halt => exact .left (yields_leaveFor h next .halt) rfl rfl
  -- interrupts are switched by a handler, which keeps no host flags
  | di =>
    obtain ⟨t, ht, hmirrors⟩ := runs_interrupt (i := i) hsound h false
    exact .through (.straight ht) hmirrors rfl rfl of_clobbered_eq_synced
  | ei =>
    obtain ⟨t, ht, hmirrors⟩ := runs_interrupt (i := i) hsound h true
    exact .through (.straight ht) hmirrors rfl rfl of_clobbered_eq_synced
  | cpl =>
    obtain ⟨t, ht, hmirrors⟩ := runs_complement (i := i) h
    exact .through (.straight ht) hmirrors rfl rfl of_clobbered_eq_synced
  | scf =>
    obtain ⟨t, ht, -, hmirrors, hsynced⟩ := runs_setCarry (i := i) h
    exact .through (.straight ht) hmirrors rfl rfl fun _ => hsynced
  | ccf =>
    obtain ⟨t, ht, -, hmirrors, hsynced⟩ := runs_complementCarry (i := i) h
    exact .through (.straight ht) hmirrors rfl rfl fun _ => hsynced
  -- loads leave the guest's flags alone, and some of them the host's too
  | load dst src =>
    obtain ⟨t, ht, hmirrors, hsynced⟩ := yields_load (i := i) hsound h hwell.1 hwell.2
    refine .through ht hmirrors rfl rfl fun hafter => ?_
    by_cases hmoved : isNeutralOperand dst = true ∧ isNeutralOperand src = true
    · have hb : before = .synced := by
        simpa [HostFlags.after, isFlagNeutral, hmoved] using hafter
      exact hsynced hmoved.1 hmoved.2 (hbefore hb)
    · simp [HostFlags.after, isFlagNeutral, endsSynced, hmoved] at hafter
  | loadImmediate16 p v =>
    obtain ⟨t, ht, hmirrors, hflags⟩ := yields_loadImmediate16 (i := i) h p v before next
    exact .through ht hmirrors rfl rfl
      (hneutral hmirrors hflags (by cases p <;> rfl) (by cases p <;> rfl))
  | storeStackPointer a =>
    obtain ⟨t, ht, hmirrors⟩ := yields_storeStackPointer (i := i) hsound h a
    exact .through ht hmirrors rfl rfl of_clobbered_eq_synced
  | loadStackPointerFromHl =>
    obtain ⟨t, ht, hmirrors⟩ := runs_loadStackPointerFromHl (i := i) h
    exact .through (.straight ht) hmirrors rfl rfl of_clobbered_eq_synced
  | loadHlFromStackOffset offset =>
    obtain ⟨t, ht, hmirrors, hsynced⟩ := runs_loadHlFromStackOffset (i := i) hsound h offset
    exact .through (.straight ht) hmirrors rfl rfl fun _ => hsynced
  | addStackPointer offset =>
    obtain ⟨t, ht, hmirrors, hsynced⟩ := runs_addStackPointer (i := i) hsound h offset
    exact .through (.straight ht) hmirrors rfl rfl fun _ => hsynced
  -- operations that define flags; those on memory do not end with the host's own
  | alu op src =>
    obtain ⟨t, ht, hmirrors, hsynced⟩ := yields_alu (i := i) hsound h op hwell
    exact .through ht hmirrors rfl rfl fun _ => hsynced
  | increment o =>
    obtain ⟨t, ht, hmirrors, hsynced⟩ := yields_increment (i := i) hsound h hwell 1 (w := 1) rfl
    exact .through ht hmirrors rfl rfl fun hafter => hsynced (by
      simpa [HostFlags.after, isFlagNeutral, endsSynced] using hafter)
  | decrement o =>
    obtain ⟨t, ht, hmirrors, hsynced⟩ :=
      yields_increment (i := i) hsound h hwell (-1) (w := -1) (by decide)
    simp only [← BitVec.sub_eq_add_neg] at ht hmirrors
    exact .through ht hmirrors rfl rfl fun hafter => hsynced (by
      simpa [HostFlags.after, isFlagNeutral, endsSynced] using hafter)
  -- the sums of words keep the flags, but for the one that is added to HL
  | increment16 p =>
    obtain ⟨t, ht, hmirrors, hflags⟩ := runs_increment16 (i := i) hsound h p 1
    exact .through (.straight ht) hmirrors rfl rfl
      (hneutral hmirrors hflags (by cases p <;> rfl) (by cases p <;> rfl))
  | decrement16 p =>
    obtain ⟨t, ht, hmirrors, hflags⟩ := runs_increment16 (i := i) hsound h p (-1)
    have hminus : (-1 : BitVec 32).setWidth 16 = -1#16 := by decide
    rw [hminus, ← BitVec.sub_eq_add_neg] at hmirrors
    exact .through (.straight ht) hmirrors rfl rfl
      (hneutral hmirrors hflags (by cases p <;> rfl) (by cases p <;> rfl))
  | addHl p =>
    obtain ⟨t, ht, hmirrors, hsynced⟩ := runs_addHl (i := i) hsound h p
    exact .through (.straight ht) hmirrors rfl rfl fun _ => hsynced
  | rotateAccumulator op =>
    have hop : op.isRotation = true := hwell
    obtain ⟨t, ht, hmirrors, hsynced⟩ := runs_rotateAccumulator (i := i) h hop
    exact .through (.straight ht) hmirrors rfl rfl fun _ => hsynced
  | shift op o =>
    obtain ⟨t, ht, hmirrors, hsynced⟩ := yields_shift (i := i) hsound h op hwell
    exact .through ht hmirrors rfl rfl fun hafter => hsynced (by
      simpa [HostFlags.after, isFlagNeutral, endsSynced] using hafter)
  | bit index o =>
    obtain ⟨t, ht, hmirrors, hsynced⟩ := yields_bit (i := i) hsound h index hwell
    exact .through ht hmirrors rfl rfl fun _ => hsynced
  | reset index o =>
    obtain ⟨t, ht, hmirrors⟩ := yields_modifyOperand_none (i := i) hsound h hwell fun r t v hv =>
      runs_maskByte env i .and rfl (~~~bitMask index) r t hv
    exact .through ht hmirrors rfl rfl of_clobbered_eq_synced
  | set index o =>
    obtain ⟨t, ht, hmirrors⟩ := yields_modifyOperand_none (i := i) hsound h hwell fun r t v hv =>
      runs_maskByte env i .or rfl (bitMask index) r t hv
    exact .through ht hmirrors rfl rfl of_clobbered_eq_synced
  -- transfers of control
  | jump condition target =>
    exact performs_conditionally h hbefore htaken (by rintro rfl; rfl)
      (fun u hu => yields_leaveFor hu target .branch) (ite_self _).symm rfl
  | jumpHl =>
    obtain ⟨u, hu, hsu, hvalue, -⟩ := runs_load16 (i := i) hsound h .hl value
    exact .left (yields_leave hu (h.free hsu (by decide)) g.hl hvalue .branch) rfl rfl
  | jumpRelative condition offset =>
    exact performs_conditionally h hbefore htaken (by rintro rfl; rfl)
      (fun u hu => yields_leaveFor hu (next + offset.signExtend 16) .branch) (ite_self _).symm rfl
  | call condition target =>
    refine performs_conditionally h hbefore htaken (by rintro rfl; rfl)
      (fun u hu => yields_call hsound hu next target) ?_ rfl
    rw [Interpreter.performDemands_call, apply_ite demandEvents]
    rfl
  | ret condition =>
    refine performs_conditionally h hbefore htaken (by rintro rfl; rfl)
      (fun u hu => yields_return hsound hu) ?_ rfl
    rw [Interpreter.performDemands_ret, apply_ite demandEvents]
    rfl
  | retInterrupt =>
    obtain ⟨u, hu, hmirrors⟩ := runs_interrupt (i := i) hsound h true
    obtain ⟨t, ht, hmirrors', hleft⟩ := yields_return (i := i) hsound hmirrors
    exact .left ⟨t, (Yields.straight hu).append ht, hmirrors', hleft⟩ rfl rfl
  | restart vector => exact .left (yields_call hsound h next (vector.setWidth 16)) rfl rfl
  -- the stack
  | push pair =>
    obtain ⟨t, ht, hmirrors⟩ := yields_push (i := i) hsound h pair
    exact .through ht hmirrors rfl rfl of_clobbered_eq_synced
  | pop pair =>
    obtain ⟨t, ht, hmirrors⟩ := yields_pop (i := i) hsound h pair
    exact .through ht hmirrors rfl rfl of_clobbered_eq_synced

/-- **The code of an instruction** performs it: counting its cycles keeps what is known about the
host flags. -/
theorem performs_operationCode (hsound : env.Sound) (h : Mirrors env g s) {before : HostFlags}
    (hbefore : before = .synced → Synced s) {p : Placed}
    (hwell : p.instruction.operation.WellFormed) :
    Performs env i (operationCode env.layout before p) s
      (demandEvents (Interpreter.stepDemands i p g)) (before.after p.instruction.operation)
      (Interpreter.step i p g) := by
  obtain ⟨t, ht, -, hmirrors, hflags⟩ :=
    runs_addCycles (i := i) h p.instruction.operation.cycles_lt.1
  exact (performs_operationBody hsound hmirrors
    (fun hb => (hbefore hb).of_flags h hmirrors rfl rfl hflags) p.next hwell).prepend ht

end Codegen

end Dynarec
