import Dynarec.Proofs.Codegen.Mirrors

/-!
# Defining the guest flags

What the instruction sequences of `Codegen.Flags` do. A commit turns captured host flags into the
guest flags that its rule says (`FlagRule.apply`), whatever else the capture register holds, and
leaves a synced state.
-/

namespace Dynarec

open Bridge (MemoryInterface)
open Host (Flags Register Registers Size)
open Machine (Environment State Changes Runs)

variable {σ : Type}

/-! ### Flags words -/

namespace Host.Flags

/-- The zero flag is bit 6 of the flags word. -/
theorem getLsbD_toWord_zero (f : Flags) : f.toWord.getLsbD 6 = f.zero :=
  congrArg Flags.zero f.ofWord_toWord

/-- The carry flag is bit 0 of the flags word. -/
theorem getLsbD_toWord_carry (f : Flags) : f.toWord.getLsbD 0 = f.carry :=
  congrArg Flags.carry f.ofWord_toWord

end Host.Flags

namespace Codegen

variable {env : Environment} {i : MemoryInterface σ} {g : Interpreter.State σ} {s : State σ}

/-- The guest flags that a rule defines, given the captured ones. -/
def FlagRule.apply (rule : FlagRule) (g : Interpreter.State σ) (zero carry : Bool) :
    Interpreter.State σ :=
  match rule with
  | .zeroAndCarry => { g with zero, carry }
  | .zeroKeepCarry => { g with zero }
  | .carryKeepZero => { g with carry }
  | .carryClearZero => { g with zero := false, carry }

/-- Shadow flags are joined flag by flag. -/
theorem or_shadowWord (a b c d : Bool) :
    shadowWord a b ||| shadowWord c d = shadowWord (a || c) (b || d) := by
  cases a <;> cases b <;> cases c <;> cases d <;> rfl

/-- Shadow flags fit 32 bits, so that instructions on the low half keep them. -/
theorem dword_shadowWord (zero carry : Bool) :
    ((shadowWord zero carry).setWidth 32).setWidth 64 = shadowWord zero carry := by
  cases zero <;> cases carry <;> rfl

/-- A mask that fits 32 bits can be applied to the low half alone, as it clears the upper one
anyway. -/
theorem and_dword {bits : HostWord} (hbits : (bits.setWidth 32).setWidth 64 = bits) (v : HostWord) :
    (v.setWidth 32 &&& bits.setWidth 32).setWidth 64 = v &&& bits := by
  apply BitVec.eq_of_getLsbD_eq
  intro k hk
  have hbit := congrArg (·.getLsbD k) hbits
  simp only [BitVec.getLsbD_setWidth, hk, decide_true, Bool.true_and] at hbit
  simp only [BitVec.getLsbD_setWidth, BitVec.getLsbD_and, hk, decide_true, Bool.true_and]
  rw [← hbit]
  cases decide (k < 32) <;> simp

/-! ### Single instructions -/

variable (env i) in
/-- Masking a register changes that register and the host flags. -/
theorem runs_mask (r : Register) (bits : HostWord) (hbits : (bits.setWidth 32).setWidth 64 = bits)
    (s : State σ) :
    ∃ t, Runs env i [mask r bits] s [] t ∧ Changes [r] s t ∧
      t.registers.get r = s.registers.get r &&& bits := by
  refine ⟨_, .quiet (Machine.execute_alu rfl _ _ _) rfl (.nil _),
    ((Changes.refl _ s).setFlags _).writeRegister List.mem_cons_self _ _, ?_⟩
  rw [Machine.get_writeRegister, if_pos rfl, ← and_dword hbits]
  rfl

variable (env i) in
/-- Two registers with shadow flags are joined in the first. -/
theorem runs_or {r q : Register} {a b c d : Bool} (hr : s.registers.get r = shadowWord a b)
    (hq : s.registers.get q = shadowWord c d) :
    ∃ t, Runs env i [.alu .or .dword r (.register q)] s [] t ∧ Changes [r] s t ∧
      t.registers.get r = shadowWord (a || c) (b || d) := by
  refine ⟨_, .quiet (Machine.execute_alu rfl _ _ _) rfl (.nil _),
    ((Changes.refl _ s).setFlags _).writeRegister List.mem_cons_self _ _, ?_⟩
  rw [Machine.get_writeRegister, if_pos rfl, ← or_shadowWord, ← dword_shadowWord a b,
    ← dword_shadowWord c d, ← BitVec.setWidth_or, ← hr, ← hq]
  rfl

variable (env i) in
/-- Shadow flags are copied from one register to another. -/
theorem runs_move {r q : Register} {a b : Bool} (hq : s.registers.get q = shadowWord a b) :
    ∃ t, Runs env i [.mov .dword r (.register q)] s [] t ∧ Changes [r] s t ∧
      t.registers.get r = shadowWord a b := by
  refine ⟨_, .quiet rfl rfl (.nil _), (Changes.refl _ s).writeRegister List.mem_cons_self _ _, ?_⟩
  rw [Machine.get_writeRegister, if_pos rfl, ← dword_shadowWord a b, ← hq]
  rfl

/-- A **sync** makes the host flags equal to the shadow flags and changes nothing else: a word is
pushed and popped again. -/
theorem runs_syncFlags (hs : s.isBalanced env = true) :
    ∃ t, Runs env i syncFlags s [] t ∧ Changes [] s t ∧ Synced t :=
  ⟨_, Machine.runs_reload hs shadowFlags, (Changes.refl _ s).setFlags _, rfl⟩

/-! ### Commits -/

/-- Captured flags replace the shadow flags that are not kept: these are masked out before the
captured ones are joined to them. -/
theorem runs_merge (h : Mirrors env g s) (kept : HostWord)
    (hbits : (kept.setWidth 32).setWidth 64 = kept) {a b zero carry : Bool}
    (hkept : shadowWord g.zero g.carry &&& kept = shadowWord a b)
    (hcaptured : s.registers.get capturedFlags = shadowWord zero carry) :
    ∃ t, Runs env i
        [mask shadowFlags kept, .alu .or .dword shadowFlags (.register capturedFlags)] s [] t ∧
      Changes [shadowFlags] s t ∧
      t.registers.get shadowFlags = shadowWord (a || zero) (b || carry) := by
  obtain ⟨t, ht, hst, hvalue⟩ := runs_mask env i shadowFlags kept hbits s
  rw [h.flags, hkept] at hvalue
  obtain ⟨u, hu, htu, hvalue'⟩ := runs_or env i hvalue
    ((hst.registers capturedFlags (by decide)).trans hcaptured)
  exact ⟨u, ht.append_quiet hu, hst.trans htu, hvalue'⟩

/-- The middle of a commit, which takes over the fresh flags. -/
def mergeFlags (rule : FlagRule) : List Host.Instruction :=
  match rule.kept with
  | some kept => [mask shadowFlags kept, .alu .or .dword shadowFlags (.register capturedFlags)]
  | none => [.mov .dword shadowFlags (.register capturedFlags)]

/-- A commit is a mask of the captured flags, a merge and a sync. -/
theorem commitFlags_eq (rule : FlagRule) :
    commitFlags rule = mask capturedFlags rule.fresh :: (mergeFlags rule ++ syncFlags) := rfl

/-- The flags that a rule takes over are **merged** with those that it keeps. There is one case for
each rule. -/
theorem runs_mergeFlags (h : Mirrors env g s) (rule : FlagRule) {v : HostWord}
    (hcaptured : s.registers.get capturedFlags = v &&& rule.fresh) :
    ∃ t, Runs env i (mergeFlags rule) s [] t ∧ Changes [shadowFlags] s t ∧
      Mirrors env (rule.apply g (v.getLsbD 6) (v.getLsbD 0)) t := by
  cases rule with
  | zeroAndCarry =>
    rw [FlagRule.fresh, and_hostZero_or_hostCarry] at hcaptured
    obtain ⟨t, ht, hst, hvalue⟩ := runs_move env i (r := shadowFlags) hcaptured
    exact ⟨t, ht, hst, h.setFlags hst hvalue (by decide)⟩
  | zeroKeepCarry =>
    rw [FlagRule.fresh, and_hostZero] at hcaptured
    obtain ⟨t, ht, hst, hvalue⟩ := runs_merge (i := i) h hostCarry rfl
      (by rw [and_hostCarry, getLsbD_shadowWord_carry]) hcaptured
    rw [Bool.false_or, Bool.or_false] at hvalue
    exact ⟨t, ht, hst, h.setFlags hst hvalue (by decide)⟩
  | carryKeepZero =>
    rw [FlagRule.fresh, and_hostCarry] at hcaptured
    obtain ⟨t, ht, hst, hvalue⟩ := runs_merge (i := i) h hostZero rfl
      (by rw [and_hostZero, getLsbD_shadowWord_zero]) hcaptured
    rw [Bool.false_or, Bool.or_false] at hvalue
    exact ⟨t, ht, hst, h.setFlags hst hvalue (by decide)⟩
  | carryClearZero =>
    rw [FlagRule.fresh, and_hostCarry] at hcaptured
    obtain ⟨t, ht, hst, hvalue⟩ := runs_move env i (r := shadowFlags) hcaptured
    exact ⟨t, ht, hst, h.setFlags hst hvalue (by decide)⟩

/-- A **commit** defines the guest flags from captured ones by a rule, and leaves the host flags
equal to them. -/
theorem runs_commitFlags (h : Mirrors env g s) (rule : FlagRule) {zero carry : Bool}
    (hzero : (s.registers.get capturedFlags).getLsbD 6 = zero)
    (hcarry : (s.registers.get capturedFlags).getLsbD 0 = carry) :
    ∃ t, Runs env i (commitFlags rule) s [] t ∧ Changes [capturedFlags, shadowFlags] s t ∧
      Mirrors env (rule.apply g zero carry) t ∧ Synced t := by
  subst hzero hcarry
  obtain ⟨t, ht, hst, hcaptured⟩ := runs_mask env i capturedFlags rule.fresh
    (by cases rule <;> rfl) s
  obtain ⟨u, hu, htu, hmirrors⟩ := runs_mergeFlags (i := i) (h.free hst (by decide)) rule hcaptured
  obtain ⟨v, hv, huv, hsynced⟩ := runs_syncFlags (i := i) hmirrors.isBalanced
  rw [commitFlags_eq]
  refine ⟨v, ht.append_quiet (hu.append_quiet hv), ?_, hmirrors.free huv (by decide), hsynced⟩
  exact (hst.mono (by decide)).trans ((htu.mono (by decide)).trans (huv.mono (by decide)))

/-- A **capture** of the host flags, with zero at bit 6 and carry at bit 0. -/
theorem runs_captureFlags (hs : s.isBalanced env = true) :
    ∃ t, Runs env i captureFlags s [] t ∧ Changes [capturedFlags] s t ∧
      (t.registers.get capturedFlags).getLsbD 6 = s.flags.zero ∧
      (t.registers.get capturedFlags).getLsbD 0 = s.flags.carry := by
  refine ⟨_, Machine.runs_capture hs capturedFlags,
    (Changes.refl [capturedFlags] s).setRegister List.mem_cons_self _, ?_, ?_⟩
  · rw [Machine.get_setRegister, if_pos rfl, Flags.getLsbD_toWord_zero]
  · rw [Machine.get_setRegister, if_pos rfl, Flags.getLsbD_toWord_carry]

/-- Capture and commit at once: the guest flags follow from those of the last host instruction. -/
theorem runs_updateFlags (h : Mirrors env g s) (rule : FlagRule) :
    ∃ t, Runs env i (updateFlags rule) s [] t ∧ Changes [capturedFlags, shadowFlags] s t ∧
      Mirrors env (rule.apply g s.flags.zero s.flags.carry) t ∧ Synced t := by
  obtain ⟨u, hu, hsu, hzero, hcarry⟩ := runs_captureFlags (i := i) h.isBalanced
  obtain ⟨t, ht, hut, hmirrors, hsynced⟩ :=
    runs_commitFlags (i := i) (h.free hsu (by decide)) rule hzero hcarry
  exact ⟨t, hu.append_quiet ht, (hsu.mono (by decide)).trans hut, hmirrors, hsynced⟩

/-! ### The flags themselves -/

/-- The guest carry can be moved into CF, from bit 0 of the shadow flags. -/
theorem runs_loadCarry (h : Mirrors env g s) :
    ∃ t, Runs env i loadCarry s [] t ∧ Changes [] s t ∧ t.flags.carry = g.carry := by
  refine ⟨_, .quiet (Machine.execute_bitTest shadowFlags 0) rfl (.nil _),
    (Changes.refl _ s).setFlags _, ?_⟩
  rw [Machine.flags_setFlags]
  exact (congrArg (·.getLsbD 0) h.flags).trans (getLsbD_shadowWord_carry _ _)

/-- An instruction that defines the shadow flags, and a sync, after which the host flags are equal
to them. -/
theorem runs_define {instruction : Host.Instruction} (h : Mirrors env g s)
    (zero carry : Bool) {t : State σ}
    (hruns : Runs env i [instruction] s [] t) (hst : Changes [shadowFlags] s t)
    (hvalue : t.registers.get shadowFlags = shadowWord zero carry) :
    ∃ u, Runs env i (instruction :: syncFlags) s [] u ∧ Changes [shadowFlags] s u ∧
      Mirrors env { g with zero, carry } u ∧ Synced u := by
  have hmirrors := h.setFlags hst hvalue (by decide)
  obtain ⟨u, hu, htu, hsynced⟩ := runs_syncFlags (i := i) hmirrors.isBalanced
  exact ⟨u, hruns.append_quiet hu, hst.trans (htu.mono (by decide)),
    hmirrors.free htu (by decide), hsynced⟩

/-- **Arithmetic on the shadow flags**, and a sync. The result has to be shadow flags again. -/
theorem runs_aluShadow (h : Mirrors env g s) {op : Host.AluOp} (hop : op.writes = true)
    (src : Host.Source) (zero carry : Bool)
    (hvalue : ((op.apply ((shadowWord g.zero g.carry).setWidth 32)
      (Machine.sourceValue s .dword src) s.flags.carry).1).setWidth 64 = shadowWord zero carry) :
    ∃ t, Runs env i (.alu op .dword shadowFlags src :: syncFlags) s [] t ∧
      Changes [shadowFlags] s t ∧ Mirrors env { g with zero, carry } t ∧ Synced t := by
  refine runs_define h zero carry (.quiet (Machine.execute_alu hop _ _ _) rfl (.nil _))
    (((Changes.refl _ s).setFlags _).writeRegister List.mem_cons_self _ _) ?_
  rw [Machine.get_writeRegister, if_pos rfl, Machine.update_dword, Registers.read, h.flags]
  exact hvalue

/-- `SCF` sets C and keeps Z. -/
theorem runs_setCarry (h : Mirrors env g s) :
    ∃ t, Runs env i setCarry s [] t ∧ Changes [shadowFlags] s t ∧
      Mirrors env { g with carry := true } t ∧ Synced t := by
  refine runs_aluShadow h rfl _ g.zero true ?_
  rw [Machine.sourceValue_immediate]
  cases g.zero <;> cases g.carry <;> rfl

/-- `CCF` complements C and keeps Z. -/
theorem runs_complementCarry (h : Mirrors env g s) :
    ∃ t, Runs env i complementCarry s [] t ∧ Changes [shadowFlags] s t ∧
      Mirrors env { g with carry := !g.carry } t ∧ Synced t := by
  refine runs_aluShadow h rfl _ g.zero (!g.carry) ?_
  rw [Machine.sourceValue_immediate]
  cases g.zero <;> cases g.carry <;> rfl

/-- Both flags are cleared. -/
theorem runs_clearFlags (h : Mirrors env g s) :
    ∃ t, Runs env i clearFlags s [] t ∧ Changes [shadowFlags] s t ∧
      Mirrors env { g with zero := false, carry := false } t ∧ Synced t := by
  refine runs_aluShadow h rfl _ false false ?_
  rw [Machine.sourceValue_register, Registers.read, h.flags]
  cases g.zero <;> cases g.carry <;> rfl

/-- A second **test for zero** joins the captured carry: the zero flag that was captured before is
dropped. -/
theorem runs_captureZeroOf (hs : s.isBalanced env = true) (r : Register) :
    ∃ t, Runs env i (captureZeroOf r) s [] t ∧ Changes [capturedFlags, scratchFlags] s t ∧
      t.registers.get capturedFlags =
        shadowWord (decide ((s.registers.get r).setWidth 8 = 0#8))
          ((s.registers.get capturedFlags).getLsbD 0) := by
  -- the flags of the test, of which Z is kept
  have htest : Machine.execute env i s (.test .byte r (.register r)) = _ :=
    Machine.execute_test _ _ _
  have hzero : (Host.logicFlags (s.registers.read .byte r &&& s.registers.read .byte r)).zero =
      decide ((s.registers.get r).setWidth 8 = 0#8) := by
    rw [BitVec.and_self]
    rfl
  let f := Host.logicFlags (s.registers.read .byte r &&& s.registers.read .byte r)
  have hcapture :=
    Machine.runs_capture (i := i) (show (s.setFlags f).isBalanced env = true from hs) scratchFlags
  obtain ⟨u, hu, htu, huvalue⟩ := runs_mask env i scratchFlags hostZero rfl
    ((s.setFlags f).setRegister scratchFlags f.toWord)
  obtain ⟨v, hv, huv, hvvalue⟩ := runs_mask env i capturedFlags hostCarry rfl u
  rw [Machine.get_setRegister, if_pos rfl, and_hostZero, Flags.getLsbD_toWord_zero,
    hzero] at huvalue
  rw [htu.registers _ (by decide), Machine.get_setRegister, if_neg (by decide),
    and_hostCarry] at hvvalue
  -- and the captured carry beside it
  obtain ⟨w, hw, hvw, hwvalue⟩ := runs_or env i hvvalue
    ((huv.registers _ (by decide)).trans huvalue)
  rw [Bool.false_or, Bool.or_false] at hwvalue
  refine ⟨w, .quiet htest rfl (hcapture.append_quiet (hu.append_quiet (hv.append_quiet hw))), ?_,
    hwvalue⟩
  have hchanges : Changes [capturedFlags, scratchFlags] s
      ((s.setFlags f).setRegister scratchFlags f.toWord) :=
    ((Changes.refl _ s).setFlags f).setRegister (by decide) _
  exact hchanges.trans
    ((htu.mono (by decide)).trans ((huv.mono (by decide)).trans (hvw.mono (by decide))))

end Codegen

end Dynarec
