import Dynarec.Codegen.Stack
import Dynarec.Proofs.Codegen.Access
import Dynarec.Proofs.Codegen.Flags
import Dynarec.Proofs.Codegen.Registers

/-!
# The stack

What the code of `Codegen.Stack` does: pushes and pops meet their demand in the window or by a
handler, AF is formed from the shadow flags and split into them again, and SP is moved inside the
low half of its register.
-/

namespace Dynarec.Codegen

open Bridge (Handler MemoryInterface)
open Guest (Reg16 StackPair)
open Host (Memory Register Registers Size)
open Interpreter (Demand)
open Machine (Environment Event State Changes Runs Yields)

variable {σ : Type} {env : Environment} {i : MemoryInterface σ} {g : Interpreter.State σ}
  {s : State σ}

/-! ### Moving SP -/

/-- Arithmetic on the low word of `r14` moves SP, and leaves the address of the window above it
alone: the window is aligned to its size, so that the low word is SP. -/
theorem runs_moveStackPointer (hsound : env.Sound) (h : Mirrors env g s) (op : Host.AluOp)
    (amount : HostWord) (sp : BitVec 16) (hop : op.writes = true)
    (hsp : (op.apply g.sp (amount.setWidth 16) s.flags.carry).1 = sp) :
    ∃ t, Runs env i [moveStackPointer op amount] s [] t ∧ Changes [stackPointer] s t ∧
      Mirrors env { g with sp } t := by
  have hchanges :=
    ((Changes.refl [stackPointer] s).setFlags (op.apply (s.registers.read .word stackPointer)
    (Machine.sourceValue s .word (.immediate amount)) s.flags.carry).2).writeRegister
      List.mem_cons_self .word (op.apply (s.registers.read .word stackPointer)
        (Machine.sourceValue s .word (.immediate amount)) s.flags.carry).1
  refine ⟨_, .quiet (Machine.execute_alu hop _ _ _) rfl (.nil _), hchanges,
    h.setSp hchanges ?_ (by decide)⟩
  have hread : s.registers.read .word stackPointer = g.sp := h.pairLow hsound .sp
  rw [Machine.get_writeRegister, if_pos rfl, Machine.update_word, hread,
    Machine.registers_setFlags, h.sp, update_sp hsound.windowAligned]
  exact congrArg (fun v : BitVec 16 => env.layout.windowBase ||| v.setWidth 64) hsp

/-- The guest stack lies in the window: what `r14` holds is the host address of the word at SP. -/
theorem effectiveAddress_stack (hsound : env.Sound) (h : Mirrors env g s) :
    Machine.effectiveAddress s.registers (.ofBase stackPointer) =
      env.layout.windowBase + g.sp.setWidth 64 := by
  have hdisjoint : env.layout.windowBase &&& g.sp.setWidth 64 = 0#64 := by
    apply BitVec.eq_of_getLsbD_eq
    intro k hk
    have hlow := congrArg (·.getLsbD k) hsound.windowAligned
    simp at hlow
    simp
    grind
  simp [Machine.effectiveAddress, Memory.ofBase, h.sp,
    BitVec.add_eq_or_of_and_eq_zero _ _ hdisjoint]

/-- Reading SP, as the low word of `r14`. The host flags are left alone. -/
theorem runs_loadStackPointer (hsound : env.Sound) (h : Mirrors env g s) (dst : Register) :
    ∃ t, Runs env i [loadStackPointer dst] s [] t ∧ Changes [dst] s t ∧
      t.registers.get dst = g.sp.setWidth 64 ∧ t.flags = s.flags :=
  runs_load16 hsound h .sp dst

/-! ### Push and pop -/

/-- **A push** of the low word of `rdx`: SP is compared as it is before, and the word is stored
below it in the window or passed to the handler. -/
theorem yields_pushValue (hsound : env.Sound) (h : Mirrors env g s) {v : BitVec 16}
    (hv : (s.registers.get value).setWidth 16 = v) :
    ∃ t, Yields env i (pushValue env.layout) s [(Demand.push g.sp v).event g.cycles] .through t ∧
      Mirrors env (g.push i v) t := by
  -- the stack pointer is compared as it was before it is moved
  obtain ⟨s₁, hs₁, hchanges₁, hoperand, -⟩ := runs_loadStackPointer (i := i) hsound h operand
  obtain ⟨s₂, hs₂, hchanges₂, hmirrors₂⟩ :=
    runs_moveStackPointer (i := i) hsound (h.free hchanges₁ (by decide))
    .sub 2 (g.sp - 2) rfl (by simp [Host.AluOp.apply, Host.subWithBorrow])
  obtain ⟨s₃, hs₃, hchanges₃, hcarry, -⟩ := runs_compare env i
    ((hchanges₂.registers operand (by decide)).trans hoperand) 0xFF80 (n := highMemoryStart) rfl
  have htests := hs₁.append_quiet (hs₂.append_quiet hs₃)
  have hmirrors₃ := hmirrors₂.free hchanges₃ (by decide)
  have hvalue : (s₃.registers.get value).setWidth 16 = v := by
    rw [hchanges₃.registers _ (by decide), hchanges₂.registers _ (by decide),
      hchanges₁.registers _ (by decide), hv]
  by_cases hfast : 0xFF80 ≤ g.sp.toNat
  · -- high memory: the window is written at the stack pointer
    rw [Interpreter.State.push, if_pos hfast, Demand.event, Demand.isDirect, decide_eq_true hfast]
    have hm := effectiveAddress_stack hsound hmirrors₃
    have hfits : (g.sp - 2).toNat + 2 ≤ 0x10000 := by bv_omega
    have hstore : Machine.execute env i s₃ (.store .word (.ofBase stackPointer) value) =
        .ok (.next, s₃.setWindow (s₃.memory.window.setWord (g.sp - 2) v)) := by
      rw [Machine.execute, Machine.writeMemory_word hm hfits, Registers.read, hvalue]
      rfl
    refine ⟨_,
      .fast _ (.pass htests (hcarry.trans (decide_eq_false (Nat.not_lt.mpr hfast))) (.done _))
      (.straight (.single hstore (Machine.directEvents_word hm hfits true))), ?_⟩
    rw [hmirrors₃.memory]
    exact hmirrors₃.setWindow _
  · -- elsewhere: the handler is asked, for the address after the move
    rw [Interpreter.State.push, if_neg hfast, Demand.event, Demand.isDirect, decide_eq_false hfast]
    obtain ⟨s₄, hs₄, hchanges₄, haddress, -⟩ :=
      runs_loadStackPointer (i := i) hsound hmirrors₃ address
    obtain ⟨t, ht, hmirrors, -⟩ :=
      runs_callHandler (i := i) hsound (hmirrors₃.free hchanges₄ (by decide)) .write16
      (.write16 (g.sp - 2) v)
      (by simp [Machine.requestOf, haddress, hchanges₄.registers value (by decide), hvalue])
    exact ⟨t, .slow _ (.slow _ htests (hcarry.trans (decide_eq_true (Nat.lt_of_not_le hfast))))
      (.straight (hs₄.append_quiet ht)), hmirrors⟩

/-- The fast path of a pop is taken exactly if the window serves it: SP has to be in high RAM, and
not at the last address. -/
theorem tests_pop (hsound : env.Sound) (h : Mirrors env g s) :
    ∃ t, Machine.Tests env i
        [([loadStackPointer operand, compare operand highMemoryStart], .below),
          ([compare operand 0xFFFF], .equal)] s (!(Demand.pop g.sp).isDirect) t ∧
      Changes [operand] s t ∧ t.registers.get operand = g.sp.setWidth 64 := by
  obtain ⟨s₁, hs₁, hchanges₁, hoperand, -⟩ := runs_loadStackPointer (i := i) hsound h operand
  obtain ⟨s₂, hs₂, hchanges₂, hcarry, -⟩ := runs_compare env i hoperand
    0xFF80 (n := highMemoryStart) rfl
  have hoperand₂ := (hchanges₂.registers operand (by decide)).trans hoperand
  have hchanges := hchanges₁.trans (hchanges₂.mono (by decide))
  -- the first test sends SP below high RAM to the handler, the second one SP at the last address
  by_cases hlow : g.sp.toNat < 0xFF80
  · have hslow : (Demand.pop g.sp).isDirect = false :=
      decide_eq_false fun hfast => absurd hfast.1 (Nat.not_le.mpr hlow)
    rw [hslow]
    exact ⟨s₂, .slow _ (hs₁.append_quiet hs₂) (hcarry.trans (decide_eq_true hlow)),
      hchanges, hoperand₂⟩
  · obtain ⟨s₃, hs₃, hchanges₃, -, hzero⟩ := runs_compare env i hoperand₂
      0xFFFF (n := 0xFFFF) rfl
    refine ⟨s₃, .pass (hs₁.append_quiet hs₂) (hcarry.trans (decide_eq_false hlow)) ?_,
      hchanges.trans (hchanges₃.mono (by decide)),
        (hchanges₃.registers operand (by decide)).trans hoperand₂⟩
    by_cases htop : g.sp = 0xFFFF
    · have hslow : (Demand.pop g.sp).isDirect = false := by rw [htop]; rfl
      rw [hslow]
      exact .slow _ hs₃ (hzero.trans (decide_eq_true htop))
    · have hfast : (Demand.pop g.sp).isDirect = true :=
        decide_eq_true ⟨Nat.not_lt.mp hlow, fun htop' => htop (BitVec.eq_of_toNat_eq htop')⟩
      rw [hfast]
      exact .pass hs₃ (hzero.trans (decide_eq_false htop)) (.done s₃)

/-- **A pop** into `rax`, zero-extended, after which SP is two bytes further up on either path. -/
theorem yields_popValue (hsound : env.Sound) (h : Mirrors env g s) :
    ∃ t, Yields env i (popValue env.layout) s [(Demand.pop g.sp).event g.cycles] .through t ∧
      Mirrors env (g.pop i).2 t ∧ t.registers.get result = (g.pop i).1.setWidth 64 := by
  obtain ⟨s₁, htests, hchanges₁, hoperand⟩ := tests_pop (i := i) hsound h
  have hmirrors₁ := h.free hchanges₁ (by decide)
  by_cases hfast : 0xFF80 ≤ g.sp.toNat ∧ g.sp.toNat ≠ 0xFFFF
  · have hdirect : (Demand.pop g.sp).isDirect = true := decide_eq_true hfast
    rw [Interpreter.State.pop, if_pos hfast, Demand.event, hdirect]
    rw [hdirect] at htests
    -- the window is read before the stack pointer moves
    have hm := effectiveAddress_stack hsound hmirrors₁
    have hload : Machine.execute env i s₁ (.movzx true result (.memory (.ofBase stackPointer))) =
        .ok (.next, s₁.setRegister result ((s₁.memory.window.getWord g.sp).setWidth 64)) := by
      rw [Machine.execute, Machine.readMemory_word hm (by omega)]
      rfl
    have hchanges₂ := (Changes.refl [result] s₁).setRegister List.mem_cons_self
      ((s₁.memory.window.getWord g.sp).setWidth 64)
    obtain ⟨t, ht, hchanges, hmirrors⟩ :=
      runs_moveStackPointer (i := i) hsound (hmirrors₁.free hchanges₂ (by decide))
      .add 2 (g.sp + 2) rfl (by simp [Host.AluOp.apply, Host.addWithCarry])
    refine ⟨t, (Yields.fast _ htests (.straight (.single hload
      (Machine.directEvents_word hm (by omega) false)))).append (.straight ht), hmirrors, ?_⟩
    rw [hchanges.registers result (by decide), Machine.get_setRegister, if_pos rfl,
      hmirrors₁.memory]
  · have hdirect : (Demand.pop g.sp).isDirect = false := decide_eq_false hfast
    rw [Interpreter.State.pop, if_neg hfast, Demand.event, hdirect]
    rw [hdirect] at htests
    -- the handler is asked, and the rest of its result is cleared before the stack pointer moves
    have hchanges₂ := (Changes.refl [address] s₁).writeRegister List.mem_cons_self .dword
      (Machine.sourceValue s₁ .dword (.register operand))
    obtain ⟨s₃, hs₃, hmirrors₃, residue, hresult⟩ := runs_callHandler (i := i) hsound
      (hmirrors₁.free hchanges₂ (by decide)) .read16 (.read16 g.sp)
      (by simp [Machine.requestOf, Registers.read, hoperand])
    have hchanges₄ := (Changes.refl [result] s₃).setRegister List.mem_cons_self
      ((s₃.registers.read .word result).setWidth 64)
    obtain ⟨t, ht, hchanges, hmirrors⟩ :=
      runs_moveStackPointer (i := i) hsound (hmirrors₃.free hchanges₄ (by decide))
      .add 2 (g.sp + 2) rfl
      (by simp [Host.AluOp.apply, Host.addWithCarry, Interpreter.State.afterRequest])
    refine ⟨t,
      (Yields.slow _ htests (.straight (.quiet rfl rfl (hs₃.append (.single rfl rfl))))).append
      (.straight ht), hmirrors, ?_⟩
    rw [hchanges.registers result (by decide), Machine.get_setRegister, if_pos rfl,
      Registers.read, hresult]
    exact congrArg (BitVec.setWidth 64) (low_resultWord residue _)

/-! ### AF -/

variable (env i) in
theorem runs_copy (dst src : Register) (s : State σ) :
    ∃ t, Runs env i [.mov .dword dst (.register src)] s [] t ∧ Changes [dst] s t ∧
      t.registers.get dst = ((s.registers.get src).setWidth 32).setWidth 64 := by
  refine ⟨_, .quiet rfl rfl (.nil _), (Changes.refl _ s).writeRegister List.mem_cons_self _ _, ?_⟩
  rw [Machine.get_writeRegister, if_pos rfl]
  rfl

variable (env i) in
theorem runs_shiftDword (op : Host.ShiftOp) (r : Register) (n : Nat)
    (hn : Host.ShiftOp.places 32 (BitVec.ofNat 8 n) = n) (hpos : n ≠ 0) (s : State σ) :
    ∃ t, Runs env i [.shift op .dword r (BitVec.ofNat 8 n)] s [] t ∧ Changes [r] s t ∧
      t.registers.get r = (op.move ((s.registers.get r).setWidth 32) n s.flags).1.setWidth 64 := by
  have hplaces : Host.ShiftOp.places Size.dword.bits (BitVec.ofNat 8 n) ≠ 0 := by rwa [← hn] at hpos
  refine ⟨_, .quiet (Machine.execute_shift hplaces _) rfl (.nil _),
    ((Changes.refl _ s).writeRegister List.mem_cons_self _ _).setFlags _, ?_⟩
  rw [Machine.registers_setFlags, Machine.get_writeRegister, if_pos rfl]
  exact congrArg (fun k => (op.move ((s.registers.get r).setWidth 32) k s.flags).1.setWidth 64) hn

variable (env i) in
theorem runs_shl (r : Register) (n : Nat) (hn : Host.ShiftOp.places 32 (BitVec.ofNat 8 n) = n)
    (hpos : n ≠ 0) (s : State σ) :
    ∃ t, Runs env i [.shift .shl .dword r (BitVec.ofNat 8 n)] s [] t ∧ Changes [r] s t ∧
      t.registers.get r = ((s.registers.get r).setWidth 32 <<< n).setWidth 64 :=
  runs_shiftDword env i .shl r n hn hpos s

variable (env i) in
theorem runs_shr (r : Register) (n : Nat) (hn : Host.ShiftOp.places 32 (BitVec.ofNat 8 n) = n)
    (hpos : n ≠ 0) (s : State σ) :
    ∃ t, Runs env i [.shift .shr .dword r (BitVec.ofNat 8 n)] s [] t ∧ Changes [r] s t ∧
      t.registers.get r = ((s.registers.get r).setWidth 32 >>> n).setWidth 64 :=
  runs_shiftDword env i .shr r n hn hpos s

variable (env i) in
/-- The guest's **F** is formed from the shadow flags, whatever else their register holds: Z goes
from bit 6 to bit 7, and C from bit 0 to bit 4. -/
theorem runs_guestOfShadow (s : State σ) :
    ∃ t, Runs env i (shadowToGuest result operand) s [] t ∧ Changes [result, operand] s t ∧
      t.registers.get result = guestOfShadow (s.registers.get shadowFlags) := by
  obtain ⟨s₁, hs₁, hchanges₁, hvalue₁⟩ := runs_copy env i result shadowFlags s
  obtain ⟨s₂, hs₂, hchanges₂, hvalue₂⟩ := runs_mask env i result hostZero rfl s₁
  obtain ⟨s₃, hs₃, hchanges₃, hvalue₃⟩ := runs_shl env i result 1 rfl (by decide) s₂
  obtain ⟨s₄, hs₄, hchanges₄, hvalue₄⟩ := runs_copy env i operand shadowFlags s₃
  obtain ⟨s₅, hs₅, hchanges₅, hvalue₅⟩ := runs_mask env i operand hostCarry rfl s₄
  obtain ⟨s₆, hs₆, hchanges₆, hvalue₆⟩ := runs_shl env i operand 4 rfl (by decide) s₅
  have hzero : s₃.registers.get result =
      ((shadowWord ((s.registers.get shadowFlags).getLsbD 6) false).setWidth 32 <<< 1).setWidth
        64 := by
    rw [hvalue₃, hvalue₂, hvalue₁, and_hostZero]
    simp
  have hcarry : s₆.registers.get operand =
      ((shadowWord false ((s.registers.get shadowFlags).getLsbD 0)).setWidth 32 <<< 4).setWidth
        64 := by
    rw [hvalue₆, hvalue₅, hvalue₄, hchanges₃.registers _ (by decide),
      hchanges₂.registers _ (by decide), hchanges₁.registers _ (by decide), and_hostCarry]
    simp
  -- the code for C leaves Z in its register
  have hresult : s₆.registers.get result = s₃.registers.get result := by
    rw [hchanges₆.registers _ (by decide), hchanges₅.registers _ (by decide),
      hchanges₄.registers _ (by decide)]
  have hchanges : Changes [result, operand] s s₆ :=
    (hchanges₁.mono (by decide)).trans <| (hchanges₂.mono (by decide)).trans <|
      (hchanges₃.mono (by decide)).trans <| (hchanges₄.mono (by decide)).trans <|
        (hchanges₅.mono (by decide)).trans (hchanges₆.mono (by decide))
  refine ⟨_, hs₁.append_quiet <| hs₂.append_quiet <| hs₃.append_quiet <| hs₄.append_quiet <|
    hs₅.append_quiet <| hs₆.append_quiet <| .quiet (Machine.execute_alu rfl _ _ _) rfl (.nil _),
    (hchanges.setFlags _).writeRegister List.mem_cons_self _ _, ?_⟩
  have hguest : guestOfShadow (s.registers.get shadowFlags) =
      (shadowWord ((s.registers.get shadowFlags).getLsbD 6) false <<< 1) |||
        (shadowWord false ((s.registers.get shadowFlags).getLsbD 0) <<< 4) := by
    rw [← and_hostZero, ← and_hostCarry]
    rfl
  rw [Machine.get_writeRegister, if_pos rfl, hguest]
  simp only [Machine.update_dword, Machine.sourceValue_register, Registers.read, hresult, hzero,
    hcarry, Host.AluOp.apply]
  cases (s.registers.get shadowFlags).getLsbD 6 <;>
    cases (s.registers.get shadowFlags).getLsbD 0 <;> rfl

/-- **F** is formed from the shadow flags of a mirrored state. -/
theorem runs_shadowToGuest (h : Mirrors env g s) :
    ∃ t, Runs env i (shadowToGuest result operand) s [] t ∧ Changes [result, operand] s t ∧
      t.registers.get result = g.f.setWidth 64 := by
  obtain ⟨t, ht, hchanges, hvalue⟩ := runs_guestOfShadow env i s
  exact ⟨t, ht, hchanges, by rw [hvalue, h.flags, guestOfShadow_shadowWord]⟩

/-- The first byte of AF above the second one. -/
theorem or_shiftLeft_eight (a f : Byte) :
    ((((a.setWidth 64 : HostWord).setWidth 32 <<< 8).setWidth 64 : HostWord).setWidth 32 |||
      (f.setWidth 64 : HostWord).setWidth 32).setWidth 64 = ((a ++ f : BitVec 16).setWidth 64 :
        HostWord) := by
  apply BitVec.eq_of_getLsbD_eq
  intro k hk
  simp
  grind

/-- **Putting a stack pair** into `rdx`: for AF, A is shifted above the F that is formed from the
shadow flags. -/
theorem runs_loadStackPair (hsound : env.Sound) (h : Mirrors env g s) (pair : StackPair) :
    ∃ t, Runs env i (loadStackPair pair) s [] t ∧ Changes [value, result, operand] s t ∧
      t.registers.get value = (g.getPair pair).setWidth 64 := by
  cases pair with
  | bc =>
    obtain ⟨t, ht, hchanges, hvalue, -⟩ := runs_load16 (i := i) hsound h .bc value
    exact ⟨t, ht, hchanges.mono (by decide), hvalue⟩
  | de =>
    obtain ⟨t, ht, hchanges, hvalue, -⟩ := runs_load16 (i := i) hsound h .de value
    exact ⟨t, ht, hchanges.mono (by decide), hvalue⟩
  | hl =>
    obtain ⟨t, ht, hchanges, hvalue, -⟩ := runs_load16 (i := i) hsound h .hl value
    exact ⟨t, ht, hchanges.mono (by decide), hvalue⟩
  | af =>
    -- A goes to the high byte, and F is formed below it
    obtain ⟨s₁, hs₁, hchanges₁, hvalue₁⟩ := runs_copy env i value accumulator s
    obtain ⟨s₂, hs₂, hchanges₂, hvalue₂⟩ := runs_shl env i value 8 rfl (by decide) s₁
    have hchanges := hchanges₁.trans hchanges₂
    obtain ⟨s₃, hs₃, hchanges₃, hresult⟩ :=
      runs_shadowToGuest (i := i) (h.free hchanges (by decide))
    have hvalue : s₃.registers.get value = (((g.a.setWidth 64).setWidth 32) <<< 8).setWidth 64 := by
      rw [hchanges₃.registers _ (by decide), hvalue₂, hvalue₁, h.a,
        BitVec.setWidth_setWidth_of_le _ (by decide), BitVec.setWidth_eq]
    refine ⟨_, (hs₁.append_quiet hs₂).append_quiet <| hs₃.append_quiet <|
      .quiet (Machine.execute_alu rfl _ _ _) rfl (.nil _), (((hchanges.mono (by decide)).trans
        (hchanges₃.mono (by decide))).setFlags _).writeRegister List.mem_cons_self _ _, ?_⟩
    rw [Machine.get_writeRegister, if_pos rfl]
    simp only [Machine.update_dword, Machine.sourceValue_register, Registers.read, hresult, hvalue,
      Host.AluOp.apply]
    exact or_shiftLeft_eight g.a g.f

variable (env i) in
/-- The **shadow flags** are formed from the guest's F in `rax`, of which no other bits count: Z
goes from bit 7 to bit 6, and C from bit 4 to bit 0. -/
theorem runs_shadowOfGuest (s : State σ) :
    ∃ t, Runs env i (guestToShadow result operand) s [] t ∧
      Changes [result, operand, shadowFlags] s t ∧
      t.registers.get shadowFlags = shadowWord ((s.registers.get result).getLsbD 7)
        ((s.registers.get result).getLsbD 4) := by
  obtain ⟨s₁, hs₁, hchanges₁, hvalue₁⟩ := runs_copy env i operand result s
  obtain ⟨s₂, hs₂, hchanges₂, hvalue₂⟩ := runs_shr env i operand 1 rfl (by decide) s₁
  obtain ⟨s₃, hs₃, hchanges₃, hvalue₃⟩ := runs_mask env i operand hostZero rfl s₂
  obtain ⟨s₄, hs₄, hchanges₄, hvalue₄⟩ := runs_shr env i result 4 rfl (by decide) s₃
  obtain ⟨s₅, hs₅, hchanges₅, hvalue₅⟩ := runs_mask env i result hostCarry rfl s₄
  -- Z is formed in one register and C in the other
  have hzero : s₅.registers.get operand =
      shadowWord ((s.registers.get result).getLsbD 7) false := by
    rw [hchanges₅.registers _ (by decide), hchanges₄.registers _ (by decide), hvalue₃, and_hostZero,
      hvalue₂, hvalue₁]
    simp
  have hcarry : s₅.registers.get result =
      shadowWord false ((s.registers.get result).getLsbD 4) := by
    rw [hvalue₅, and_hostCarry, hvalue₄, hchanges₃.registers _ (by decide),
      hchanges₂.registers _ (by decide), hchanges₁.registers _ (by decide)]
    simp
  obtain ⟨s₆, hs₆, hchanges₆, hvalue₆⟩ := runs_or env i hcarry hzero
  rw [Bool.false_or, Bool.or_false] at hvalue₆
  obtain ⟨s₇, hs₇, hchanges₇, hvalue₇⟩ := runs_move env i (r := shadowFlags) hvalue₆
  have hchanges : Changes [result, operand, shadowFlags] s s₇ :=
    (hchanges₁.mono (by decide)).trans <| (hchanges₂.mono (by decide)).trans <|
      (hchanges₃.mono (by decide)).trans <| (hchanges₄.mono (by decide)).trans <|
        (hchanges₅.mono (by decide)).trans <| (hchanges₆.mono (by decide)).trans
          (hchanges₇.mono (by decide))
  exact ⟨s₇, hs₁.append_quiet <| hs₂.append_quiet <| hs₃.append_quiet <| hs₄.append_quiet <|
    hs₅.append_quiet <| hs₆.append_quiet hs₇, hchanges, hvalue₇⟩

/-- The shadow flags of a mirrored state are formed **from F**. -/
theorem runs_guestToShadow (h : Mirrors env g s) {v : BitVec 16}
    (hv : s.registers.get result = v.setWidth 64) :
    ∃ t, Runs env i (guestToShadow result operand) s [] t ∧
      Changes [result, operand, shadowFlags] s t ∧
      Mirrors env { g with zero := v.getLsbD 7, carry := v.getLsbD 4 } t := by
  obtain ⟨t, ht, hchanges, hvalue⟩ := runs_shadowOfGuest env i s
  have hbits : shadowWord ((s.registers.get result).getLsbD 7) ((s.registers.get result).getLsbD
      4) = shadowWord (v.getLsbD 7) (v.getLsbD 4) := by
    rw [hv]
    simp
  exact ⟨t, ht, hchanges, h.setFlags hchanges (hvalue.trans hbits) (by decide)⟩

/-- The first byte of a word, as it is moved to A: copied, and shifted down. -/
theorem copy_high (v : BitVec 16) :
    ((((((v.setWidth 64 : HostWord).setWidth 32).setWidth 64).setWidth 32 >>> 8).setWidth
        64).setWidth 32).setWidth 64 =
      ((v.extractLsb' 8 8).setWidth 64 : HostWord) := by
  apply BitVec.eq_of_getLsbD_eq
  intro k hk
  simp
  grind

/-- **Setting a stack pair** to the word in `rax`: for AF, the shadow flags are formed from its low
byte, of which Z and C are kept. -/
theorem runs_storeStackPair (hsound : env.Sound) (h : Mirrors env g s) (pair : StackPair)
    {v : BitVec 16}
    (hv : s.registers.get result = v.setWidth 64) :
    ∃ t, Runs env i (storeStackPair pair) s [] t ∧ Mirrors env (g.setPair pair v) t := by
  have hlow : (s.registers.get result).setWidth 16 = v := by rw [hv]; simp
  cases pair with
  | bc =>
    obtain ⟨t, ht, -, hmirrors, -⟩ := runs_store16 (i := i) hsound h .bc hlow
    exact ⟨t, ht, hmirrors⟩
  | de =>
    obtain ⟨t, ht, -, hmirrors, -⟩ := runs_store16 (i := i) hsound h .de hlow
    exact ⟨t, ht, hmirrors⟩
  | hl =>
    obtain ⟨t, ht, -, hmirrors, -⟩ := runs_store16 (i := i) hsound h .hl hlow
    exact ⟨t, ht, hmirrors⟩
  | af =>
    -- A comes from the high byte, which leaves the low byte for the flags
    obtain ⟨s₁, hs₁, hchanges₁, hvalue₁⟩ := runs_copy env i operand result s
    obtain ⟨s₂, hs₂, hchanges₂, hvalue₂⟩ := runs_shr env i operand 8 rfl (by decide) s₁
    obtain ⟨s₃, hs₃, hchanges₃, hvalue₃⟩ := runs_copy env i accumulator operand s₂
    have ha : s₃.registers.get accumulator = (v.extractLsb' 8 8).setWidth 64 := by
      rw [hvalue₃, hvalue₂, hvalue₁, hv]
      exact copy_high v
    have hmirrors₃ :=
      (h.free (hchanges₁.trans hchanges₂) (by decide)).setA hchanges₃ ha (by decide)
    obtain ⟨t, ht, -, hmirrors⟩ := runs_guestToShadow (i := i) hmirrors₃ (v := v) (by
      rw [hchanges₃.registers _ (by decide), hchanges₂.registers _ (by decide),
        hchanges₁.registers _ (by decide), hv])
    exact ⟨t, (hs₁.append_quiet <| hs₂.append_quiet hs₃).append_quiet ht, hmirrors⟩

/-! ### Stack instructions -/

/-- `PUSH rr` puts the pair together and pushes it, with one demand. -/
theorem yields_push (hsound : env.Sound) (h : Mirrors env g s) (pair : StackPair) :
    ∃ t, Yields env i (push env.layout pair) s [(Demand.push g.sp (g.getPair pair)).event g.cycles]
        .through t ∧ Mirrors env (g.push i (g.getPair pair)) t := by
  obtain ⟨u, hu, hchanges, hvalue⟩ := runs_loadStackPair (i := i) hsound h pair
  obtain ⟨t, ht, hmirrors⟩ :=
    yields_pushValue (i := i) hsound (h.free hchanges (by decide)) (v := g.getPair pair)
    (by rw [hvalue]; simp)
  exact ⟨t, (Yields.straight hu).append_quiet ht, hmirrors⟩

/-- `POP rr` pops a word and sets the pair to it, with one demand. -/
theorem yields_pop (hsound : env.Sound) (h : Mirrors env g s) (pair : StackPair) :
    ∃ t, Yields env i (pop env.layout pair) s [(Demand.pop g.sp).event g.cycles] .through t ∧
      Mirrors env ((g.pop i).2.setPair pair (g.pop i).1) t := by
  obtain ⟨u, hu, hmirrors, hvalue⟩ := yields_popValue (i := i) hsound h
  obtain ⟨t, ht, hmirrors'⟩ := runs_storeStackPair (i := i) hsound hmirrors pair hvalue
  exact ⟨t, hu.append (.straight ht), hmirrors'⟩

/-- `LD (nn), SP` is an access that writes a word, with SP as its value. -/
theorem yields_storeStackPointer (hsound : env.Sound) (h : Mirrors env g s) (target : Address) :
    ∃ t, Yields env i (storeStackPointer env.layout target) s
        [(Demand.writeWord target g.sp).event g.cycles] .through t ∧
      Mirrors env (g.write16 i target g.sp) t := by
  obtain ⟨u, hu, hchanges, hvalue, -⟩ := runs_loadStackPointer (i := i) hsound h value
  obtain ⟨t, ht, hmirrors⟩ := yields_write16 (i := i) hsound (h.free hchanges (by decide))
    (v := g.sp)
    (show GuestAddress.Holds u target (.constant target) from rfl) (by rw [hvalue]; simp)
  exact ⟨t, (Yields.straight hu).append_quiet ht, hmirrors⟩

/-- `LD SP, nn` is a move of the host address that SP stands for then, which is known while
compiling. -/
theorem runs_loadStackPointerConstant (h : Mirrors env g s) (sp : BitVec 16) :
    ∃ t, Runs env i (loadStackPointerConstant env.layout sp) s [] t ∧
      Mirrors env { g with sp } t ∧ Changes [stackPointer] s t ∧ t.flags = s.flags := by
  have hchanges := (Changes.refl [stackPointer] s).writeRegister List.mem_cons_self .qword
    (Machine.sourceValue s .qword (.immediate (env.layout.windowBase ||| sp.setWidth 64)))
  exact ⟨_, .quiet rfl rfl (.nil _), h.setSp hchanges (by simp) (by decide), hchanges, rfl⟩

variable (env i) in
/-- The window base and a word in a register are **put together**, by a disjunction: the base is
aligned, so that this is their sum. -/
theorem runs_rebiasStackPointer (windowBase : HostWord) {src : Register} (hsrc : src ≠ stackPointer)
    (s : State σ) :
    ∃ t, Runs env i (rebiasStackPointer windowBase src) s [] t ∧ Changes [stackPointer] s t ∧
      t.registers.get stackPointer = windowBase ||| s.registers.get src := by
  have hchanges := (Changes.refl [stackPointer] s).writeRegister List.mem_cons_self .qword
    (Machine.sourceValue s .qword (.immediate windowBase))
  refine ⟨_, .quiet rfl rfl (.quiet (Machine.execute_alu rfl _ _ _) rfl (.nil _)),
    (hchanges.setFlags _).writeRegister List.mem_cons_self _ _, ?_⟩
  rw [Machine.get_writeRegister, if_pos rfl]
  simp [Registers.read, Host.AluOp.apply, hsrc]

/-- `LD SP, HL` puts the window base and HL together. -/
theorem runs_loadStackPointerFromHl (h : Mirrors env g s) :
    ∃ t, Runs env i (loadStackPointerFromHl env.layout) s [] t ∧
      Mirrors env { g with sp := g.hl } t := by
  have hhl : s.registers.get (pairRegister .hl) = g.hl.setWidth 64 := h.pair (by decide)
  have hsrc : pairRegister .hl ≠ stackPointer := by decide
  obtain ⟨t, ht, hchanges, hvalue⟩ := runs_rebiasStackPointer env i env.layout.windowBase hsrc s
  exact ⟨t, ht, h.setSp hchanges (hhl ▸ hvalue) (by decide)⟩

/-! ### SP with an offset -/

/-- The carry out of the low bytes is captured, by an addition whose sum is dropped. -/
theorem runs_captureOffsetCarry (hsound : env.Sound) (h : Mirrors env g s) (offset : Byte) :
    ∃ t, Runs env i (captureOffsetCarry offset) s [] t ∧ Changes [result, capturedFlags] s t ∧
      (t.registers.get capturedFlags).getLsbD 0 =
        (Interpreter.Flagged.sum (g.sp.extractLsb' 0 8) offset false).carry := by
  obtain ⟨u, hu, hchanges, hvalue, -⟩ := runs_loadStackPointer (i := i) hsound h result
  have hread : u.registers.read .byte result = g.sp.extractLsb' 0 8 := by
    rw [Registers.read, hvalue]
    exact BitVec.eq_of_getLsbD_eq fun k hk => by simp [hk]
  have hsource : Machine.sourceValue u .byte (.immediate (offset.setWidth 64)) = offset := by simp
  have hchanges₂ := (((Changes.refl [result] u).setFlags (Host.AluOp.add.apply
    (u.registers.read .byte result) (Machine.sourceValue u .byte (.immediate (offset.setWidth 64)))
      u.flags.carry).2).writeRegister List.mem_cons_self .byte (Host.AluOp.add.apply
        (u.registers.read .byte result) (Machine.sourceValue u .byte
          (.immediate (offset.setWidth 64))) u.flags.carry).1)
  obtain ⟨t, ht, hchanges₃, -, hcarry⟩ := runs_captureFlags (i := i)
    ((h.free hchanges (by decide)).free hchanges₂ (by decide)).isBalanced
  refine ⟨t, hu.append_quiet (.quiet (Machine.execute_alu rfl _ _ _) rfl ht),
    (hchanges.mono (by decide)).trans
    ((hchanges₂.mono (by decide)).trans (hchanges₃.mono (by decide))), ?_⟩
  rw [hcarry, Machine.flags_writeRegister, Machine.flags_setFlags, hread, hsource]
  rfl

/-- Without an offset there is no carry, so that both flags are cleared. -/
theorem offsetStackPointer_zero (g : Interpreter.State σ) :
    Interpreter.offsetStackPointer g 0 = (g.sp, { g with zero := false, carry := false }) := by
  have hcarry : (Interpreter.Flagged.sum (g.sp.extractLsb' 0 8) 0 false).carry = false := by
    simp only [Interpreter.Flagged.sum, Interpreter.Flagged.ofByte, decide_eq_false_iff_not]
    have := (g.sp.extractLsb' 0 8).isLt
    simp
    omega
  rw [Interpreter.offsetStackPointer, hcarry]
  exact Prod.ext (BitVec.add_zero g.sp) rfl

/-- `LD HL, SP+e` clears Z, sets C by the low bytes, and leaves SP alone. -/
theorem runs_loadHlFromStackOffset (hsound : env.Sound) (h : Mirrors env g s) (offset : Byte) :
    ∃ t, Runs env i (loadHlFromStackOffset offset) s [] t ∧
      Mirrors env { (Interpreter.offsetStackPointer g offset).2 with
        hl := (Interpreter.offsetStackPointer g offset).1 } t ∧ Synced t := by
  rw [loadHlFromStackOffset]
  by_cases hzero : offset = 0
  · rw [if_pos hzero, hzero, offsetStackPointer_zero]
    obtain ⟨u, hu, hchanges, hvalue, -⟩ := runs_load16 (i := i) hsound h .sp (pairRegister .hl)
    obtain ⟨t, ht, -, hmirrors, hsynced⟩ :=
      runs_clearFlags (i := i) (h.setPair hchanges (p := .hl) (by decide) hvalue (by decide))
    exact ⟨t, hu.append_quiet ht, hmirrors, hsynced⟩
  · rw [if_neg hzero]
    obtain ⟨s₁, hs₁, hchanges₁, hcarry⟩ := runs_captureOffsetCarry (i := i) hsound h offset
    obtain ⟨s₂, hs₂, hchanges₂, hoperand, -⟩ :=
      runs_loadStackPointer (i := i) hsound (h.free hchanges₁ (by decide)) operand
    -- the sum is formed without touching the flags
    have hchanges₃ := (Changes.refl [operand] s₂).writeRegister List.mem_cons_self .dword
      ((Machine.effectiveAddress s₂.registers ((Memory.ofBase operand).offset
        (offset.signExtend 32))).setWidth 32)
    have hlow : ((Machine.writeRegister s₂ .dword operand ((Machine.effectiveAddress s₂.registers
        ((Memory.ofBase operand).offset (offset.signExtend 32))).setWidth 32)).registers.get
          operand).setWidth 16 = g.sp + offset.signExtend 16 := by
      rw [Machine.get_writeRegister, if_pos rfl, Machine.update_dword,
        Machine.effectiveAddress_offset,
        hoperand, low_add_displacement (v := g.sp) (by simp),
          Host.low_signExtend offset (by decide)]
    -- neither does storing it, so that the carry captured first is still there
    obtain ⟨s₄, hs₄, hchanges₄, hmirrors₄, -⟩ := runs_store16 (i := i) hsound
      (((h.free hchanges₁ (by decide)).free hchanges₂ (by decide)).free hchanges₃ (by decide))
        .hl hlow
    obtain ⟨t, ht, -, hmirrors, hsynced⟩ := runs_commitFlags (i := i) hmirrors₄ .carryClearZero rfl
      (by rw [hchanges₄.registers _ (by decide), hchanges₃.registers _ (by decide),
        hchanges₂.registers _ (by decide), hcarry])
    exact ⟨t,
      ((hs₁.append_quiet (hs₂.append_quiet (.quiet rfl rfl (.nil _)))).append_quiet
        hs₄).append_quiet ht,
      hmirrors, hsynced⟩

/-- `ADD SP, e` clears Z, sets C by the low bytes, and moves SP by the offset with its sign. -/
theorem runs_addStackPointer (hsound : env.Sound) (h : Mirrors env g s) (offset : Byte) :
    ∃ t, Runs env i (addStackPointer offset) s [] t ∧
      Mirrors env { (Interpreter.offsetStackPointer g offset).2 with
        sp := (Interpreter.offsetStackPointer g offset).1 } t ∧ Synced t := by
  rw [addStackPointer]
  by_cases hzero : offset = 0
  · rw [if_pos hzero, hzero, offsetStackPointer_zero]
    obtain ⟨t, ht, -, hmirrors, hsynced⟩ := runs_clearFlags (i := i) h
    exact ⟨t, ht, hmirrors, hsynced⟩
  · rw [if_neg hzero]
    -- the carry is captured before the stack pointer moves, and committed after it
    obtain ⟨s₁, hs₁, hchanges₁, hcarry⟩ := runs_captureOffsetCarry (i := i) hsound h offset
    obtain ⟨s₂, hs₂, hchanges₂, hmirrors₂⟩ :=
      runs_moveStackPointer (i := i) hsound (h.free hchanges₁ (by decide))
      .add (offset.signExtend 64) (g.sp + offset.signExtend 16) rfl
      (by simp [Host.AluOp.apply, Host.addWithCarry, Host.low_signExtend])
    obtain ⟨t, ht, -, hmirrors, hsynced⟩ := runs_commitFlags (i := i) hmirrors₂ .carryClearZero rfl
      (by rw [hchanges₂.registers _ (by decide), hcarry])
    exact ⟨t, (hs₁.append_quiet hs₂).append_quiet ht, hmirrors, hsynced⟩

end Dynarec.Codegen
