import Dynarec.Proofs.Codegen.Operands
import Dynarec.Proofs.Codegen.Reach
import Dynarec.Proofs.Codegen.Stack

/-!
# Counting cycles and leaving a block

`Performs` says that code does what the interpreter does: it meets the same demands and ends in a
state that stands for the interpreter's, inside the block or out of it. Code that leaves the block
performs an exit (`performs_leave`), and code that runs under a condition performs it exactly if the
guest's condition holds (`performs_conditionally`).
-/

namespace Dynarec.Codegen

open Bridge (MemoryInterface)
open Guest (Condition ExitReason)
open Host (Memory Register Registers)
open Assembly (Code)
open Interpreter (Demand Exit demandEvents)
open Machine (Environment Event State Changes Runs Yields)

variable {σ : Type} {env : Environment} {i : MemoryInterface σ} {g g' : Interpreter.State σ}
  {s t : State σ}

/-! ### Performing -/

/-- Whether a block has been **left** for a reason, to go on at a guest address. -/
structure Left (reason : ExitReason) (pc : Address) (s : State σ) : Prop where
  reason : s.registers.get result = reason.code
  target : s.registers.get value = pc.setWidth 64

/-- The next guest address is in the low word of `rdx`. -/
theorem Left.target_low {reason : ExitReason} {pc : Address} (h : Left reason pc s) :
    (s.registers.get value).setWidth 16 = pc := by
  rw [h.target]
  simp

variable (env i) in
/-- Code **performs** what leads to an interpreter state and an exit. On the path that stays in the
block it ends with what is said to be known about the host flags. -/
def Performs (code : Code) (s : State σ) (es : List Event) (after : HostFlags) :
    Interpreter.State σ × Exit → Prop
  | (g, none) =>
    ∃ t, Yields env i code s es .through t ∧ Mirrors env g t ∧ (after = .synced → Synced t)
  | (g, some (reason, pc)) =>
    ∃ t, Yields env i code s es .returned t ∧ Mirrors env g t ∧ Left reason pc t

/-- Clobbered flags are not known to be synced. -/
theorem of_clobbered_eq_synced {P : Prop} (h : HostFlags.clobbered = .synced) : P := by
  cases h

/-- Staying in the block: the code is left through its end, in a state that stands for the new
one. -/
theorem Performs.through {code : Code} {es es' : List Event} {after : HostFlags}
    {outcome : Interpreter.State σ × Exit} (ht : Yields env i code s es' .through t)
    (h : Mirrors env g t) (hes : es = es') (houtcome : outcome = (g, none))
    (hsynced : after = .synced → Synced t) : Performs env i code s es after outcome := by
  subst hes houtcome
  exact ⟨t, ht, h, hsynced⟩

/-- Leaving the block: the code is left by a return, with the reason and the next guest address in
place. -/
theorem Performs.left {code : Code} {es es' : List Event} {after : HostFlags}
    {outcome : Interpreter.State σ × Exit} {reason : ExitReason} {pc : Address}
    (h : ∃ t, Yields env i code s es' .returned t ∧ Mirrors env g t ∧ Left reason pc t)
    (hes : es = es') (houtcome : outcome = (g, some (reason, pc))) :
    Performs env i code s es after outcome := by
  subst hes houtcome
  exact h

/-- What performing code does to guest memory, whether or not it stays in the block. -/
theorem Performs.events {code : Code} {es : List Event} {after : HostFlags}
    {outcome : Interpreter.State σ × Exit} (h : Performs env i code s es after outcome)
    (offset : Nat) : Machine.events env (code.path env i offset s).visits = es := by
  obtain ⟨g, _ | ⟨reason, pc⟩⟩ := outcome
  · obtain ⟨t, ht, -⟩ := h
    exact (ht offset).2
  · obtain ⟨t, ht, -⟩ := h
    exact (ht offset).2

/-- Code through the end of which control has got performs what stays in the block. -/
theorem Performs.of_through {code : Code} {es : List Event} {after : HostFlags}
    {outcome : Interpreter.State σ × Exit} (h : Performs env i code s es after outcome)
    {offset : Nat} (ht : (code.path env i offset s).outcome = .ok (.through, t)) :
    ∃ g, outcome = (g, none) ∧ Mirrors env g t ∧ (after = .synced → Synced t) := by
  obtain ⟨g, _ | ⟨reason, pc⟩⟩ := outcome
  · obtain ⟨u, hu, hrest⟩ := h
    obtain rfl : u = t := by
      have houtcome := (hu offset).1.symm.trans ht
      cases houtcome
      rfl
    exact ⟨g, rfl, hrest⟩
  · obtain ⟨u, hu, -⟩ := h
    have houtcome := (hu offset).1.symm.trans ht
    cases houtcome

/-- Instructions that are run before, without events of their own. -/
theorem Performs.prepend {is : List Host.Instruction} {code : Code} {es : List Event}
    {after : HostFlags} {outcome : Interpreter.State σ × Exit} (h : Runs env i is s [] t)
    (hp : Performs env i code t es after outcome) :
    Performs env i (.straight is ++ code) s es after outcome := by
  obtain ⟨g, _ | ⟨reason, pc⟩⟩ := outcome
  · obtain ⟨u, hu, hmirrors, hsynced⟩ := hp
    exact ⟨u, (Yields.straight h).append_quiet hu, hmirrors, hsynced⟩
  · obtain ⟨u, hu, hmirrors, hleft⟩ := hp
    exact ⟨u, (Yields.straight h).append_quiet hu, hmirrors, hleft⟩

/-! ### Cycles -/

theorem signExtend_ofNat {n : Nat} (hn : n < 0x80000000) :
    (BitVec.ofNat 32 n).signExtend 64 = BitVec.ofNat 64 n := by
  rw [BitVec.signExtend_eq_setWidth_of_msb_false]
  · exact BitVec.setWidth_ofNat_of_le_of_lt (by decide) (by omega)
  · simp [BitVec.msb_eq_decide]
    omega

/-- **Counting cycles** keeps the host flags, as it is done by the addition of an address. -/
theorem runs_addCycles (h : Mirrors env g s) {n : Nat} (hn : n < 0x80000000) :
    ∃ t, Runs env i (addCycles n) s [] t ∧ Changes [cycleCounter] s t ∧
      Mirrors env (g.addCycles n) t ∧ t.flags = s.flags := by
  rw [addCycles]
  by_cases hzero : n = 0
  · rw [if_pos hzero, hzero]
    exact ⟨s, .nil s, Changes.refl _ s, g.addCycles_zero.symm ▸ h, rfl⟩
  · rw [if_neg hzero]
    have hchanges := (Changes.refl [cycleCounter] s).writeRegister List.mem_cons_self .qword
      ((Machine.effectiveAddress s.registers
        ((Memory.ofBase cycleCounter).offset (BitVec.ofNat 32 n))).setWidth 64)
    refine ⟨_, .quiet rfl rfl (.nil _), hchanges, h.addCycles hchanges ?_ (by decide), rfl⟩
    rw [Machine.get_writeRegister, if_pos rfl, Machine.update_qword,
      Machine.effectiveAddress_offset, BitVec.setWidth_eq, h.cycles, signExtend_ofNat hn]

/-- Host flags that do not change are still synced, if the guest flags do not change either. -/
theorem Synced.of_flags (h : Mirrors env g s) (h' : Mirrors env g' t) (hzero : g'.zero = g.zero)
    (hcarry : g'.carry = g.carry) (hflags : t.flags = s.flags) (hs : Synced s) : Synced t := by
  rw [Synced, hflags, h'.flags, hzero, hcarry, ← h.flags]
  exact hs

/-! ### Leaving -/

/-- Code that **leaves** the block once the next guest address is in `rdx`: the reason is set, and
there is nothing on the host stack. -/
theorem yields_leave {is : List Host.Instruction} (hruns : Runs env i is s [] t)
    (h : Mirrors env g t) (pc : Address) (hpc : t.registers.get value = pc.setWidth 64)
    (reason : ExitReason) :
    ∃ u, Yields env i (.straight (is ++ leave reason)) s [] .returned u ∧ Mirrors env g u ∧
      Left reason pc u := by
  have hchanges := (Changes.refl [result] t).writeRegister List.mem_cons_self .dword
    (Machine.sourceValue t .dword (.immediate reason.code))
  have hmirrors := h.free hchanges (by decide)
  have hleave : Runs env i (is ++ [.mov .dword result (.immediate reason.code)]) s [] _ :=
    hruns.append_quiet (.quiet rfl rfl (.nil _))
  have hyields := Yields.leave hleave hmirrors.isBalanced hmirrors.stack
  rw [List.append_assoc] at hyields
  refine ⟨_, hyields, hmirrors, ?_, ?_⟩
  · rw [Machine.get_writeRegister, if_pos rfl, Machine.update_dword, Machine.sourceValue_immediate]
    cases reason <;> rfl
  · rw [hchanges.registers _ (by decide), hpc]

/-- Leaving for a guest address that is known while compiling, which is loaded first. -/
theorem yields_leaveFor (h : Mirrors env g s) (target : Address) (reason : ExitReason) :
    ∃ u, Yields env i (.straight (leaveFor target reason)) s [] .returned u ∧ Mirrors env g u ∧
      Left reason target u := by
  have hchanges := (Changes.refl [value] s).writeRegister List.mem_cons_self .dword
    (Machine.sourceValue s .dword (.immediate (target.setWidth 64)))
  have hmov : Runs env i [.mov .dword value (.immediate (target.setWidth 64))] s [] _ :=
    .quiet rfl rfl (.nil _)
  exact yields_leave hmov (h.free hchanges (by decide)) target (by simp) reason

/-- A **call** pushes the return address and leaves for the address that is called. -/
theorem yields_call (hsound : env.Sound) (h : Mirrors env g s) (returnAddress target : Address) :
    ∃ t, Yields env i (callCode env.layout returnAddress target) s
        [(Demand.push g.sp returnAddress).event g.cycles] .returned t ∧
      Mirrors env (g.push i returnAddress) t ∧ Left .branch target t := by
  have hchanges := (Changes.refl [value] s).writeRegister List.mem_cons_self .dword
    (Machine.sourceValue s .dword (.immediate (returnAddress.setWidth 64)))
  obtain ⟨u, hu, hmirrors⟩ :=
    yields_pushValue (i := i) hsound (h.free hchanges (by decide)) (v := returnAddress)
    (by simp)
  obtain ⟨t, ht, hmirrors', hleft⟩ := yields_leaveFor (i := i) hmirrors target .branch
  exact ⟨t, ((Yields.straight (.quiet rfl rfl (.nil _))).append_quiet hu).append_quiet_right ht,
    hmirrors', hleft⟩

/-- A **return** pops the address to go on at, which is not known while compiling. -/
theorem yields_return (hsound : env.Sound) (h : Mirrors env g s) :
    ∃ t, Yields env i (returnCode env.layout) s [(Demand.pop g.sp).event g.cycles] .returned t ∧
      Mirrors env (g.pop i).2 t ∧ Left .branch (g.pop i).1 t := by
  obtain ⟨u, hu, hmirrors, hresult⟩ := yields_popValue (i := i) hsound h
  obtain ⟨w, hw, huw, hvalue⟩ := runs_copy env i value result u
  obtain ⟨t, ht, hmirrors', hleft⟩ := yields_leave hw (hmirrors.free huw (by decide)) (g.pop i).1
    (by rw [hvalue, hresult]; simp) .branch
  exact ⟨t, hu.append_quiet_right ht, hmirrors', hleft⟩

/-- Telling the device whether interrupts are enabled, by a handler call of its own. -/
theorem runs_interrupt (hsound : env.Sound) (h : Mirrors env g s) (enabled : Bool) :
    ∃ t, Runs env i (interruptCode env.layout enabled) s
        [(Demand.interrupts enabled).event g.cycles] t ∧
      Mirrors env (g.setInterrupts i enabled) t := by
  have hchanges := (Changes.refl [address] s).writeRegister List.mem_cons_self .dword
    (Machine.sourceValue s .dword (.immediate (if enabled then 1 else 0)))
  obtain ⟨t, ht, hmirrors, -⟩ := runs_callHandler (i := i) hsound (h.free hchanges (by decide))
    .interruptMasterEnable (.interruptMasterEnable enabled)
      (by cases enabled <;> simp [Machine.requestOf])
  exact ⟨t, .quiet rfl rfl ht, hmirrors⟩

/-! ### Conditions -/

/-- A synced state tests the **guest's condition**: the branch that skips the code is taken exactly
if it does not hold. -/
theorem Synced.holds (h : Mirrors env g s) (hs : Synced s) (condition : Condition) :
    (hostCondition condition).invert.holds s.flags = !condition.holds g.zero g.carry := by
  have hzero : s.flags.zero = g.zero := by
    rw [hs, h.flags]
    exact getLsbD_shadowWord_zero _ _
  have hcarry : s.flags.carry = g.carry := by
    rw [hs, h.flags]
    exact getLsbD_shadowWord_carry _ _
  cases condition <;> simp [hostCondition, Host.Condition.invert, Host.Condition.holds,
    Condition.holds, hzero, hcarry]

/-- The flags before a conditional branch: reloaded, or known to be synced. -/
theorem runs_reload (h : Mirrors env g s) {before : HostFlags}
    (hbefore : before = .synced → Synced s) :
    ∃ t, Runs env i (reload before) s [] t ∧ Changes [] s t ∧ Synced t := by
  cases before with
  | synced => exact ⟨s, .nil s, Changes.refl _ s, hbefore rfl⟩
  | clobbered => exact runs_syncFlags h.isBalanced

/-- Code **under a condition** is performed exactly if the guest's condition holds. The extra cycles
are counted in that case only, before the code. -/
theorem performs_conditionally (h : Mirrors env g s) {before : HostFlags}
    (hbefore : before = .synced → Synced s) {condition : Option Condition} {width : BranchWidth}
    {n : Nat} (hn : n < 0x80000000) (hnone : condition = none → n = 0) {body : Code}
    {after : HostFlags} {es es' : List Event} {outcome : Interpreter.State σ × Exit}
    {reason : ExitReason} {pc : Address}
    (hbody : ∀ u, Mirrors env (g.addCycles n) u →
      ∃ t, Yields env i body u es' .returned t ∧ Mirrors env g' t ∧ Left reason pc t)
    (hes : es = if Interpreter.taken g condition then es' else [])
    (houtcome : outcome =
      if Interpreter.taken g condition then (g', some (reason, pc)) else (g, none)) :
    Performs env i (conditionally before condition width n body) s es after outcome := by
  subst hes houtcome
  cases condition with
  | none =>
    -- without a condition there is no branch, and there are no cycles to count
    obtain rfl := hnone rfl
    obtain ⟨u, hu, -, hmirrors, -⟩ := runs_addCycles (i := i) h (n := 0) (by decide)
    obtain rfl : u = s := by cases hu; rfl
    exact hbody u hmirrors
  | some condition =>
    obtain ⟨u, hu, hsu, hsynced⟩ := runs_reload (i := i) h hbefore
    rw [conditionally_some]
    have hmirrors := h.free hsu (by decide)
    have hholds := hsynced.holds hmirrors condition
    cases htaken : condition.holds g.zero g.carry with
    | true =>
      -- the body is entered and leaves the block
      have htaken' : Interpreter.taken g (some condition) = true := htaken
      obtain ⟨w, hw, -, hmirrors', -⟩ := runs_addCycles (i := i) hmirrors hn
      obtain ⟨t, ht, hmirrors'', hleft⟩ := hbody w hmirrors'
      rw [htaken] at hholds
      rw [if_pos htaken', if_pos htaken']
      exact ⟨t, (Yields.straight hu).append_quiet (.entered width hholds
        ((Yields.straight hw).append_quiet ht)), hmirrors'', hleft⟩
    | false =>
      -- the body is skipped, and the flags are as they were at the branch
      have htaken' : ¬ Interpreter.taken g (some condition) = true := Bool.eq_false_iff.mp htaken
      rw [htaken] at hholds
      rw [if_neg htaken', if_neg htaken']
      exact ⟨u, (Yields.straight hu).append_quiet (.skipped width _ hholds), hmirrors,
        fun _ => hsynced⟩

end Dynarec.Codegen
