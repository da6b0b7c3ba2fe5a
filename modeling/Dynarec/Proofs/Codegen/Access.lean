import Dynarec.Codegen.Access
import Dynarec.Proofs.Codegen.Mirrors
import Dynarec.Proofs.Interpreter.Accesses

/-!
# Access to memory

What the code of `Codegen.Access` does. A handler call serves the request in the argument registers
(`runs_callHandler`). An access takes one path, in the window or by its handler, and does what
`Access.perform` says (`yields_perform`). The accesses of instructions meet the demands they stand
for (`yields_read8`, `yields_write8`, `yields_write16`).
-/

namespace Dynarec

open Bridge (Handler MemoryInterface Request Residue)
open Host (Memory Register Registers Size)
open Machine (Environment Event State Changes Runs Yields)

variable {σ : Type}

namespace Machine

/-! ### Addresses -/

/-- The fields of the execution context are found there, as the window lies elsewhere. -/
theorem locate_context {env : Environment} (hsound : env.Sound) {o : HostWord}
    (ho : o.toNat + 8 ≤ contextSize) :
    locate env.layout 8 (env.layout.context + o) = some (.context o) := by
  have hapart := hsound.contextApart o.toNat (by omega)
  rw [BitVec.ofNat_toNat, BitVec.setWidth_eq] at hapart
  have hcancel : env.layout.context + o - env.layout.context = o := by
    rw [BitVec.add_comm, BitVec.add_sub_cancel]
  rw [locate, if_neg (by omega), hcancel, if_pos ho]

/-- Guest addresses are found in the window, with as many bytes as it has left. -/
theorem locate_window (layout : Bridge.Layout) {a : Address} (count : Nat)
    (ha : a.toNat + count ≤ 0x10000) :
    locate layout count (layout.windowBase + a.setWidth 64) = some (.window a) := by
  have hcancel : layout.windowBase + a.setWidth 64 - layout.windowBase = a.setWidth 64 := by
    rw [BitVec.add_comm, BitVec.add_sub_cancel]
  have hwidth : (a.setWidth 64).toNat = a.toNat := by
    rw [BitVec.toNat_setWidth]
    omega
  rw [locate, hcancel, hwidth, if_pos ha, BitVec.setWidth_setWidth_of_le _ (by decide),
    BitVec.setWidth_eq]

section Window

variable {env : Environment} {s : State σ} {m : Memory} {a : Address}

/-- A byte that is read at the place of a guest address is the one of the window. -/
theorem readMemory_byte
    (hm : effectiveAddress s.registers m = env.layout.windowBase + a.setWidth 64) :
    readMemory env s .byte (effectiveAddress s.registers m) = .ok (s.memory.window.get a) := by
  have hlocate := locate_window env.layout (a := a) (Size.byte.bits / 8) (by simp; omega)
  simp only [readMemory, hm, hlocate]

/-- A word that is read at the place of a guest address is the one of the window, unless it goes
over the end. -/
theorem readMemory_word
    (hm : effectiveAddress s.registers m = env.layout.windowBase + a.setWidth 64)
    (ha : a.toNat + 2 ≤ 0x10000) :
    readMemory env s .word (effectiveAddress s.registers m) = .ok (s.memory.window.getWord a) := by
  have hlocate : locate env.layout (Size.word.bits / 8) (env.layout.windowBase + a.setWidth 64) =
      some (.window a) := locate_window env.layout 2 ha
  simp only [readMemory, hm, hlocate]

/-- A byte that is written at the place of a guest address changes the window there. -/
theorem writeMemory_byte
    (hm : effectiveAddress s.registers m = env.layout.windowBase + a.setWidth 64)
    (v : Byte) :
    writeMemory env s .byte (effectiveAddress s.registers m) v =
      .ok (s.setWindow (s.memory.window.set a v)) := by
  have hlocate := locate_window env.layout (a := a) (Size.byte.bits / 8) (by simp; omega)
  simp only [writeMemory, hm, hlocate]

/-- A word that is written at the place of a guest address changes the window there, unless it goes
over the end. -/
theorem writeMemory_word
    (hm : effectiveAddress s.registers m = env.layout.windowBase + a.setWidth 64)
    (ha : a.toNat + 2 ≤ 0x10000) (v : BitVec 16) :
    writeMemory env s .word (effectiveAddress s.registers m) v =
      .ok (s.setWindow (s.memory.window.setWord a v)) := by
  have hlocate : locate env.layout (Size.word.bits / 8) (env.layout.windowBase + a.setWidth 64) =
      some (.window a) := locate_window env.layout 2 ha
  simp only [writeMemory, hm, hlocate]

/-- An access to a byte of the window is one event, to the stack if it is made by the register of
SP. -/
theorem directEvents_byte
    (hm : effectiveAddress s.registers m = env.layout.windowBase + a.setWidth 64)
    (write : Bool) :
    directEvents env s write .byte m =
      [.direct ⟨false, write⟩ (m.base = Codegen.stackPointer) a] := by
  have hlocate := locate_window env.layout (a := a) (Size.byte.bits / 8) (by simp; omega)
  simp only [directEvents, hm, hlocate]

/-- An access to a word of the window is one event, to the stack if it is made by the register of
SP. -/
theorem directEvents_word
    (hm : effectiveAddress s.registers m = env.layout.windowBase + a.setWidth 64)
    (ha : a.toNat + 2 ≤ 0x10000) (write : Bool) :
    directEvents env s write .word m =
      [.direct ⟨true, write⟩ (m.base = Codegen.stackPointer) a] := by
  have hlocate : locate env.layout (Size.word.bits / 8) (env.layout.windowBase + a.setWidth 64) =
      some (.window a) := locate_window env.layout 2 ha
  simp only [directEvents, hm, hlocate]

end Window

/-! ### Registers after a call -/

/-- Of registers that are set one after another, each has the value it was set to. -/
theorem get_foldl_set (f : Register → HostWord) (rs : Registers) (l : List Register)
    (q : Register) :
    (l.foldl (fun rs r => rs.set r (f r)) rs).get q = if q ∈ l then f q else rs.get q := by
  induction l generalizing rs with
  | nil => rfl
  | cons r l ih =>
    rw [List.foldl_cons, ih, Registers.get_set]
    by_cases hl : q ∈ l
    · simp [hl]
    · by_cases hr : q = r
      · simp [hr]
      · simp [hl, hr]

/-- After a call, the result register holds the result, the other registers that a callee may change
hold anything, and the rest hold what they held. -/
theorem get_registersAfter (handler : Handler) (residue : Residue) (v : BitVec 16) (rs : Registers)
    (q : Register) :
    (registersAfter handler residue v rs).get q =
      if q = .rax then resultWord handler (residue.register .rax) v
      else if q ∈ callerSaved then residue.register q else rs.get q := by
  rw [registersAfter, Registers.get_set, get_foldl_set]

end Machine

namespace Codegen

open Interpreter (Demand)

variable {env : Environment} {i : MemoryInterface σ} {g : Interpreter.State σ} {s : State σ}

/-! ### The execution context -/

/-- The address of a field of the execution context. -/
theorem effectiveAddress_context {rs : Registers} (hcontext : rs.get context = env.layout.context)
    (field : BitVec 32) :
    Machine.effectiveAddress rs ((Memory.ofBase context).offset field) =
      env.layout.context + field.signExtend 64 := by
  rw [Machine.effectiveAddress_offset, hcontext]

/-- The clock count is stored to the execution context. -/
theorem execute_storeCycles (hsound : env.Sound)
    (hcontext : s.registers.get context = env.layout.context)
    (src : Register) :
    Machine.execute env i s
      (.store .qword ((Memory.ofBase context).offset Bridge.cyclesField) src) =
      .ok (.next, { s with contextCycles := s.registers.get src }) := by
  have hlocate := Machine.locate_context hsound (o := Bridge.cyclesField.signExtend 64) (by decide)
  simp only [Machine.execute, effectiveAddress_context hcontext, Machine.writeMemory]
  rw [show Size.qword.bits / 8 = 8 from rfl, hlocate]
  simp [Registers.read, Bridge.cyclesField, Except.map]

/-- The device is loaded from the execution context. -/
theorem execute_loadDevice (hsound : env.Sound)
    (hcontext : s.registers.get context = env.layout.context)
    (dst : Register) :
    Machine.execute env i s (.load .qword dst ((Memory.ofBase context).offset Bridge.deviceField)) =
      .ok (.next, Machine.writeRegister s .qword dst env.device) := by
  have hlocate := Machine.locate_context hsound (o := Bridge.deviceField.signExtend 64) (by decide)
  simp only [Machine.execute, effectiveAddress_context hcontext, Machine.readMemory]
  rw [show Size.qword.bits / 8 = 8 from rfl, hlocate]
  rfl

/-- The address of a handler is in the field of the context that belongs to it. -/
theorem handlerAt_context (hsound : env.Sound) {rs : Registers}
    (hcontext : rs.get context = env.layout.context) (handler : Handler) :
    Machine.handlerAt env
        (Machine.effectiveAddress rs ((Memory.ofBase context).offset handler.field)) =
          some handler := by
  have hlocate := Machine.locate_context hsound (o := handler.field.signExtend 64)
    (by cases handler <;> decide)
  rw [effectiveAddress_context hcontext, Machine.handlerAt, hlocate]
  cases handler <;> rfl

/-! ### Handler calls -/

/-- Whether everything is **in place for a call**, apart from what the request is made of. -/
structure ReadyToCall (env : Machine.Environment) (g : Interpreter.State σ) (handler : Handler)
    (t : State σ) : Prop where
  context : t.registers.get context = env.layout.context
  window : t.registers.get window = env.device
  cycles : t.registers.get handler.cyclesArgument = g.cycles
  rsp : t.registers.get .rsp = env.stackTop - 8
  stack : t.stack = [g.cycles]
  contextCycles : t.contextCycles = g.cycles
  memory : t.memory = g.memory

/-- The state that a handler is called in: the clock count is in the execution context, the device
and the count are in argument registers, and a copy of the count is on the host stack, which aligns
it. -/
theorem runs_callPrologue (hsound : env.Sound) (h : Mirrors env g s) (handler : Handler) :
    ∃ t, Runs env i
        [.mov .qword context (.immediate env.layout.context),
          .store .qword ((Memory.ofBase context).offset Bridge.cyclesField) cycleCounter,
          .push cycleCounter,
          .load .qword window ((Memory.ofBase context).offset Bridge.deviceField),
          .mov .qword handler.cyclesArgument (.register cycleCounter)] s [] t ∧
      (∀ r, r ∉ [context, window, handler.cyclesArgument, .rsp] →
        t.registers.get r = s.registers.get r) ∧
      ReadyToCall env g handler t := by
  have hargument : handler.cyclesArgument ≠ context ∧ handler.cyclesArgument ≠ window ∧
      handler.cyclesArgument ≠ .rsp ∧ handler.cyclesArgument ≠ cycleCounter := by
    cases handler <;> decide
  obtain ⟨hargContext, hargWindow, hargRsp, hargCycles⟩ := hargument
  -- the context, where the clock count is stored
  let s₁ := Machine.writeRegister s .qword context env.layout.context
  have hcontext₁ : s₁.registers.get context = env.layout.context := by simp [s₁]
  have hcycles₁ : s₁.registers.get cycleCounter = g.cycles := by simp [s₁, h.cycles]
  have hmov : Machine.execute env i s (.mov .qword context (.immediate env.layout.context)) =
      .ok (.next, s₁) := by
    simp [Machine.execute, s₁]
  have hstore := execute_storeCycles (i := i) hsound hcontext₁ cycleCounter
  rw [hcycles₁] at hstore
  let s₂ : State σ := { s₁ with contextCycles := g.cycles }
  -- the clock count is kept on the stack, which aligns it
  have hpush : Machine.execute env i s₂ (.push cycleCounter) = .ok (.next, s₂.pushed g.cycles) := by
    have hbalanced : s₂.isBalanced env = true := by
      simpa [s₂, s₁, State.isBalanced] using h.isBalanced
    rw [Machine.execute, show s₂.registers.get cycleCounter = g.cycles from hcycles₁,
      Machine.push_eq hbalanced]
    rfl
  -- the arguments that all handlers have
  let s₄ := Machine.writeRegister (s₂.pushed g.cycles) .qword window env.device
  have hload : Machine.execute env i (s₂.pushed g.cycles)
      (.load .qword window ((Memory.ofBase context).offset Bridge.deviceField)) = .ok (.next, s₄) :=
    execute_loadDevice hsound (by simpa [s₂] using hcontext₁) window
  let s₅ := Machine.writeRegister s₄ .qword handler.cyclesArgument g.cycles
  have hargument : Machine.execute env i s₄
      (.mov .qword handler.cyclesArgument (.register cycleCounter)) = .ok (.next, s₅) := by
    simp [Machine.execute, Registers.read, s₅, s₄, s₂, hcycles₁]
  refine ⟨s₅,
    .quiet hmov rfl
      (.quiet hstore rfl (.quiet hpush rfl (.quiet hload rfl (.quiet hargument rfl (.nil _))))),
    fun r hr => ?_, ?_, ?_, ?_, ?_, ?_, rfl, h.memory⟩
  · simp only [List.mem_cons, List.not_mem_nil, or_false, not_or] at hr
    simp [s₅, s₄, s₂, s₁, hr]
  · simp [s₅, s₄, s₂, s₁, hargContext.symm]
  · simp [s₅, s₄, s₂, s₁, hargWindow.symm]
  · simp [s₅, s₄, s₂, s₁]
  · simp [s₅, s₄, s₂, s₁, hargRsp.symm, h.rsp]
  · simp [s₅, s₄, s₂, s₁, State.pushed, h.stack]

/-- The host stack is aligned to 16 bytes once a word has been pushed. -/
theorem aligned_call (hsound : env.Sound) : ((env.stackTop - 8).setWidth 4 == 0) = true := by
  have h := hsound.stackAligned
  have h' : (env.stackTop - 8).setWidth 4 = 0#4 := by bv_omega
  rw [h']
  rfl

variable (env i g) in
/-- The state after a request is **served**, with the clock count off the stack again but still not
in its register. -/
def servedState (handler : Handler) (request : Request) (t : State σ) : State σ where
  registers := (Machine.registersAfter handler (i.residue request g.cycles g.memory)
    (i.serve request g.cycles g.memory).1 t.registers).set .rsp env.stackTop
  flags := (i.residue request g.cycles g.memory).flags
  stack := []
  contextCycles := g.cycles
  memory := (i.serve request g.cycles g.memory).2

/-- The host stack is balanced when the handler returns, with the copy of the clock count still on
it. -/
theorem isBalanced_servedState (handler : Handler) (request : Request) (t : State σ) :
    (servedState env i g handler request t).isBalanced env = true := by
  simp [State.isBalanced, servedState, Registers.get_set]

/-- The call itself: the handler serves the request in the argument registers. -/
theorem execute_callHandler (hsound : env.Sound) {handler : Handler} {t : State σ}
    (h : ReadyToCall env g handler t) :
    Machine.execute env i t
        (.call (some (.memory ((Memory.ofBase context).offset handler.field)))) =
      .ok (.next,
        (servedState env i g handler (Machine.requestOf handler t.registers) t).pushed
          g.cycles) := by
  have hbalanced : t.isBalanced env = true := by simp [State.isBalanced, h.rsp, h.stack]
  have hready : (t.isBalanced env && (t.registers.get .rsp).setWidth 4 == 0 &&
      t.registers.get .rdi == env.device) = true := by
    rw [hbalanced, h.rsp, aligned_call hsound, show t.registers.get .rdi = env.device from h.window]
    simp
  -- pushing the clock count again leads back to the stack that the handler returns with
  have hpushed {residue : Bridge.Residue} {v : BitVec 16} (m : Bridge.GuestMemory σ) :
      State.pushed ⟨(Machine.registersAfter handler residue v t.registers).set .rsp env.stackTop,
          residue.flags, [], g.cycles, m⟩ g.cycles =
        ⟨Machine.registersAfter handler residue v t.registers, residue.flags, [g.cycles], g.cycles,
          m⟩ := by
    have hrsp : (Machine.registersAfter handler residue v t.registers).get .rsp =
        env.stackTop - 8 := (Machine.get_registersAfter _ _ _ _ _).trans h.rsp
    simp only [State.pushed, Registers.get_set, if_true, Machine.set_set, ← hrsp, Machine.set_get]
  simp only [Machine.execute, handlerAt_context hsound h.context, Machine.callHandler, hready,
    if_true, h.cycles, h.memory, h.stack, h.contextCycles, servedState, hpushed]
  rfl

/-- A handler **keeps** the registers that it has to save. -/
theorem get_servedState {handler : Handler} {request : Request} {t : State σ} {r : Register}
    (hr : r ∉ Machine.callerSaved) (hrsp : r ≠ .rsp) :
    (servedState env i g handler request t).registers.get r = t.registers.get r := by
  have hrax : r ≠ .rax := fun h => hr (h ▸ List.mem_cons_self)
  simp only [servedState, Registers.get_set, Machine.get_registersAfter, if_neg hrsp, if_neg hrax,
    if_neg hr]

/-- **A handler call** serves the request in the argument registers and keeps the guest registers.
All of them but the cycle counter are bound to registers that a callee saves, and the cycle counter
is popped again. -/
theorem runs_callHandler (hsound : env.Sound) (h : Mirrors env g s) (handler : Handler)
    (request : Request) (hrequest : Machine.requestOf handler s.registers = request) :
    ∃ t, Runs env i (callHandler env.layout handler) s [.call request g.cycles] t ∧
      Mirrors env (g.afterRequest (i.serve request g.cycles g.memory).2) t ∧
      ∃ residue, t.registers.get result =
        Machine.resultWord handler residue (i.serve request g.cycles g.memory).1 := by
  obtain ⟨t, ht, hkeep, hready⟩ := runs_callPrologue (i := i) hsound h handler
  have hrequest' : Machine.requestOf handler t.registers = request := by
    rw [← hrequest]
    cases handler <;>
      simp [Machine.requestOf, hkeep .rsi (by decide), hkeep .rdx, Handler.cyclesArgument]
  have hcall := execute_callHandler (i := i) hsound hready
  rw [hrequest'] at hcall
  have hevents : Machine.eventsOf env t
      (.call (some (.memory ((Memory.ofBase context).offset handler.field)))) =
        [.call request g.cycles] := by
    simp only [Machine.eventsOf, handlerAt_context hsound hready.context, hrequest', hready.cycles]
  let u := servedState env i g handler request t
  have hpop : Machine.execute env i (u.pushed g.cycles) (.pop cycleCounter) =
      .ok (.next, u.setRegister cycleCounter g.cycles) := by
    rw [Machine.execute, Machine.pop_pushed (isBalanced_servedState handler request t)]
    rfl
  -- the prologue uses only registers that a handler need not save
  have hsaved : ∀ q, q ∉ Machine.callerSaved → q ≠ .rsp →
      u.registers.get q = s.registers.get q := fun q hq hrsp => by
    refine (get_servedState hq hrsp).trans (hkeep q fun hmem => ?_)
    cases handler <;> simp_all [Machine.callerSaved, Handler.cyclesArgument]
  have hregisters : ∀ r, ∀ w ∈ image env g r,
      (u.setRegister cycleCounter g.cycles).registers.get r = w := by
    intro r w hw
    rw [Machine.get_setRegister]
    cases r <;> cases hw
    case r10 => rfl
    case rsp => simp [u, servedState, Registers.get_set]
    all_goals exact (hsaved _ (by decide) (by decide)).trans (h.registers _ _ rfl)
  have hcalls : Runs env i
      [.call (some (.memory ((Memory.ofBase context).offset handler.field))), .pop cycleCounter] t
        [.call request g.cycles] (u.setRegister cycleCounter g.cycles) := by
    have := Runs.cons hcall (.quiet hpop rfl (.nil _))
    rwa [hevents] at this
  refine ⟨u.setRegister cycleCounter g.cycles, ht.append_quiet hcalls, ⟨hregisters, rfl, rfl, rfl⟩,
    (i.residue request g.cycles g.memory).register .rax, ?_⟩
  simp [u, servedState, Registers.get_set, Machine.get_registersAfter]

/-! ### The choice between window and handler -/

/-- The flags of a comparison are the order and the equality of the two numbers without a sign. -/
theorem flags_subWithBorrow {w : Nat} (x y : BitVec w) :
    (Host.subWithBorrow x y false).2.carry = decide (x.toNat < y.toNat) ∧
      (Host.subWithBorrow x y false).2.zero = decide (x = y) := by
  refine ⟨by simp [Host.subWithBorrow, Host.resultFlags], ?_⟩
  have hzero : x - y = 0#w ↔ x = y := by
    refine ⟨fun h => ?_, fun h => by rw [h, BitVec.sub_self]⟩
    rw [← BitVec.sub_add_cancel x y, h, BitVec.zero_add]
  simp only [Host.subWithBorrow, Host.resultFlags, Bool.toNat_false, BitVec.sub_zero]
  exact Bool.eq_iff_iff.mpr (by simpa using hzero)

variable (env i) in
/-- Comparing a zero-extended word with a constant, by its order and its equality. -/
theorem runs_compare {r : Register} {v : BitVec 16} (hr : s.registers.get r = v.setWidth 64)
    (bound : BitVec 16) {n : Nat} (hn : bound.toNat = n) :
    ∃ t, Runs env i [compare r n] s [] t ∧ Changes [] s t ∧
      t.flags.carry = decide (v.toNat < n) ∧ t.flags.zero = decide (v = bound) := by
  have hv : s.registers.read .dword r = v.setWidth 32 := by
    rw [Registers.read, hr]
    exact BitVec.setWidth_setWidth_of_le v (by decide)
  have hb : Machine.sourceValue s .dword (.immediate (BitVec.ofNat 64 n)) = bound.setWidth 32 := by
    rw [← hn, BitVec.ofNat_toNat]
    exact BitVec.setWidth_setWidth_of_le bound (by decide)
  obtain ⟨hcarry, hzero⟩ := flags_subWithBorrow (v.setWidth 32) (bound.setWidth 32)
  have hinj : v.setWidth 32 = bound.setWidth 32 ↔ v = bound := by
    rw [← BitVec.toNat_inj, ← BitVec.toNat_inj, BitVec.toNat_setWidth_of_le (by decide),
      BitVec.toNat_setWidth_of_le (by decide)]
  refine ⟨_, .quiet (Machine.execute_cmp _ _ _) rfl (.nil _), (Changes.refl _ s).setFlags _, ?_, ?_⟩
  · rw [Machine.flags_setFlags, hv, hb, hcarry, BitVec.toNat_setWidth_of_le (by decide),
      BitVec.toNat_setWidth_of_le (by decide), hn]
  · rw [Machine.flags_setFlags, hv, hb, hzero, decide_eq_decide, hinj]

/-- Where the code of an access finds a guest address. -/
def GuestAddress.Holds (s : State σ) (a : Address) : GuestAddress → Prop
  | .dynamic => s.registers.get address = a.setWidth 64
  | .constant target => target = a

variable (env i) in
/-- The test against a bound of the fast path, or against two if there is a lower one. -/
theorem tests_dynamic (access : Access) {a : Address}
    (ha : s.registers.get address = a.setWidth 64) :
    ∃ t, Machine.Tests env i
        (if 0 < access.lower then
          [([compare address access.lower], .below),
            ([compare address access.upper], .aboveOrEqual)]
        else [([compare address access.upper], .aboveOrEqual)]) s (!access.isFast a) t ∧
      Changes [] s t := by
  have hupper : (BitVec.ofNat 16 access.upper).toNat = access.upper := by
    obtain ⟨_ | _, _ | _⟩ := access <;> rfl
  have hlast : ∀ t, t.registers.get address = a.setWidth 64 → access.lower ≤ a.toNat →
      ∃ u, Machine.Tests env i [([compare address access.upper], .aboveOrEqual)] t
        (!access.isFast a) u ∧ Changes [] t u := by
    intro t ht hlower
    obtain ⟨u, hu, htu, hcarry, -⟩ := runs_compare env i ht _ hupper
    refine ⟨u, ?_, htu⟩
    by_cases hlt : a.toNat < access.upper
    · have hfast : access.isFast a = true := by simp [Access.isFast, hlower, hlt]
      rw [hfast]
      exact .pass hu (by simp [Host.Condition.holds, hcarry, hlt]) (.done u)
    · have hslow : access.isFast a = false := by simp [Access.isFast, hlt]
      rw [hslow]
      exact .slow _ hu (by simp [Host.Condition.holds, hcarry, hlt])
  -- a range that starts at zero has one test
  by_cases hpos : 0 < access.lower
  · rw [if_pos hpos]
    have hlower : (BitVec.ofNat 16 access.lower).toNat = access.lower := by
      obtain ⟨_ | _, _ | _⟩ := access <;> rfl
    obtain ⟨t, ht, hst, hcarry, -⟩ := runs_compare env i ha _ hlower
    by_cases hlt : a.toNat < access.lower
    · have hslow : access.isFast a = false := by
        rw [Access.isFast, decide_eq_false (Nat.not_le.mpr hlt), Bool.false_and]
      rw [hslow]
      exact ⟨t, .slow _ ht (by simp [Host.Condition.holds, hcarry, hlt]), hst⟩
    · obtain ⟨u, hu, htu⟩ := hlast t ((hst.registers _ (by decide)).trans ha) (by omega)
      exact ⟨u, .pass ht (by simp [Host.Condition.holds, hcarry, hlt]) hu, hst.trans htu⟩
  · rw [if_neg hpos]
    exact hlast s ha (by omega)

/-- An access takes the fast path exactly if the window serves it. With an address that is known
while compiling there is no test, and only one of the two paths is emitted. -/
theorem yields_access (h : Mirrors env g s) (access : Access) {target : GuestAddress} {a : Address}
    (ha : target.Holds s a) {es : List Event} {P : State σ → Prop}
    (hpath : ∀ t, Mirrors env g t → t.registers.get address = a.setWidth 64 →
      Changes [address] s t →
      ∃ u, Runs env i
        (if access.isFast a then access.fastPath env.layout else access.slowPath env.layout)
        t es u ∧ P u) :
    ∃ t, Yields env i (access.code env.layout target) s es .through t ∧ P t := by
  cases target with
  | constant target =>
    obtain rfl : target = a := ha
    have hchanges := (Changes.refl [address] s).writeRegister List.mem_cons_self .dword
      (Machine.sourceValue s .dword (.immediate (target.setWidth 64)))
    obtain ⟨u, hu, hP⟩ := hpath _ (h.free hchanges (by decide)) (by simp) hchanges
    exact ⟨u, .straight (.quiet rfl rfl hu), hP⟩
  | dynamic =>
    obtain ⟨t, ht, hst⟩ := tests_dynamic env i access ha
    obtain ⟨u, hu, hP⟩ := hpath t (h.free hst (by decide)) ((hst.registers _ (by decide)).trans ha)
      (hst.mono (by decide))
    refine ⟨u, ?_, hP⟩
    cases hfast : access.isFast a with
    | true =>
      rw [hfast] at ht hu
      exact .fast _ ht (.straight hu)
    | false =>
      rw [hfast] at ht hu
      exact .slow _ ht (.straight hu)

/-! ### Paths -/

variable (env) in
/-- The place of the fast path is the guest address in the window. -/
theorem effectiveAddress_window {rs : Registers} {a : Address}
    (hwindow : rs.get window = env.layout.windowBase)
    (haddress : rs.get address = a.setWidth 64) :
    Machine.effectiveAddress rs ((Memory.ofBase window).indexed address) =
      env.layout.windowBase + a.setWidth 64 := by
  simp [Machine.effectiveAddress, Memory.ofBase, Memory.indexed, hwindow, haddress]

/-- The first instruction of a fast path loads the address of the window to a free register. -/
theorem execute_loadWindow (h : Mirrors env g s) :
    ∃ t, Machine.execute env i s (.mov .qword window (.immediate env.layout.windowBase)) =
        .ok (.next, t) ∧
      Mirrors env g t ∧ Changes [window] s t ∧ t.registers.get window = env.layout.windowBase := by
  have hchanges := (Changes.refl [window] s).writeRegister List.mem_cons_self .qword
    (Machine.sourceValue s .qword (.immediate env.layout.windowBase))
  exact ⟨_, rfl, h.free hchanges (by decide), hchanges, by simp⟩

/-- Storing to the window changes the guest's window and the machine's alike. -/
theorem Mirrors.setWindow (h : Mirrors env g s) (w : Guest.Window) :
    Mirrors env (g.setWindow w) (s.setWindow w) where
  registers := h.registers
  stack := h.stack
  contextCycles := h.contextCycles
  memory := by rw [State.setWindow, Interpreter.State.setWindow, h.memory]

/-- The low byte of the result of a byte read is the byte, whatever the handler leaves above it. -/
theorem low_resultByte (residue : HostWord) (v : Byte) :
    (Machine.resultWord .read8 residue (v.setWidth 16)).setWidth 8 = v := by
  apply BitVec.eq_of_getLsbD_eq
  intro k hk
  simp [Machine.resultWord, hk]

/-- The low word of the result of a word read is the word, whatever the handler leaves above it. -/
theorem low_resultWord (residue : HostWord) (v : BitVec 16) :
    (Machine.resultWord .read16 residue v).setWidth 16 = v := by
  apply BitVec.eq_of_getLsbD_eq
  intro k hk
  simp [Machine.resultWord, hk]

/-- The documented range is the one that code tests for. -/
theorem Access.isFast_iff_served (access : Access) (a : Address) :
    access.isFast a = true ↔ access.Served a := by
  obtain ⟨_ | _, _ | _⟩ := access <;> simp [isFast, Served, lower, upper]

/-- The handler of an access is called with the **request** of the access, which is in its argument
registers. -/
theorem Access.requestOf_handler (access : Access) {rs : Registers} {a : Address} {v : BitVec 16}
    (ha : rs.get address = a.setWidth 64) (hv : (rs.get value).setWidth 16 = v) :
    Machine.requestOf access.handler rs = access.request a v := by
  subst hv
  obtain ⟨_ | _, _ | _⟩ := access <;> simp [Machine.requestOf, handler, request, ha]

/-- The result register is free, so that setting it changes nothing for the guest. -/
theorem Mirrors.setResult (h : Mirrors env g s) (v : HostWord) :
    Mirrors env g (s.setRegister result v) :=
  h.free ((Changes.refl [result] s).setRegister List.mem_cons_self v) (by decide)

/-- An access that is served **in the window** is a single direct event, and the handlers hear
nothing of it. -/
theorem runs_fastPath (h : Mirrors env g s) {access : Access} {a : Address} {v : BitVec 16}
    (ha : s.registers.get address = a.setWidth 64) (hv : (s.registers.get value).setWidth 16 = v)
    (hserved : access.Served a) :
    ∃ t, Runs env i (access.fastPath env.layout) s [.direct access false a] t ∧
      Mirrors env (access.perform i a v g).2 t ∧
      (access.write = false →
        t.registers.get result = (access.perform i a v g).1.setWidth 64) := by
  obtain ⟨t, ht, hmirrors, hchanges, hwindow⟩ := execute_loadWindow (i := i) h
  have hm := effectiveAddress_window env hwindow
    ((hchanges.registers address (by decide)).trans ha)
  have hvalue : (t.registers.get value).setWidth 16 = v := by
    rw [hchanges.registers value (by decide), hv]
  have hwide : access.wide = true → a.toNat + 2 ≤ 0x10000 := fun hwide => by
    have := hserved.2
    rw [hwide, if_pos rfl] at this
    omega
  rw [Access.perform_of_served hserved, ← hmirrors.memory]
  have hresult : ∀ v, Mirrors env (g.setWindow t.memory.window) (t.setRegister result v) := by
    rw [hmirrors.memory]
    exact hmirrors.setResult
  -- byte or word, read or written: each is one instruction on the place in the window
  obtain ⟨_ | _, _ | _⟩ := access
  · have hmove : Machine.execute env i t (.movzx false result
        (.memory ((Memory.ofBase window).indexed address))) =
          .ok (.next, t.setRegister result ((t.memory.window.get a).setWidth 64)) := by
      rw [Machine.execute, Machine.readMemory_byte hm]
      rfl
    exact ⟨_, .quiet ht rfl (.single hmove (Machine.directEvents_byte hm false)), hresult _,
      fun _ => by simp [Access.inWindow]⟩
  · have hmove :
      Machine.execute env i t (.store .byte ((Memory.ofBase window).indexed address) value) =
        .ok (.next, t.setWindow (t.memory.window.set a (v.setWidth 8))) := by
      have hlow : (t.registers.get value).setWidth 8 = v.setWidth 8 := by
        rw [← hvalue, BitVec.setWidth_setWidth_of_le _ (by decide)]
      rw [Machine.execute, Machine.writeMemory_byte hm, Registers.read, ← hlow]
      rfl
    exact ⟨_, .quiet ht rfl (.single hmove (Machine.directEvents_byte hm true)),
      hmirrors.setWindow _, fun hread => Bool.noConfusion hread⟩
  · have hmove : Machine.execute env i t (.movzx true result
        (.memory ((Memory.ofBase window).indexed address))) =
          .ok (.next, t.setRegister result ((t.memory.window.getWord a).setWidth 64)) := by
      rw [Machine.execute, Machine.readMemory_word hm (hwide rfl)]
      rfl
    exact ⟨_, .quiet ht rfl (.single hmove (Machine.directEvents_word hm (hwide rfl) false)),
      hresult _, fun _ => by simp [Access.inWindow]⟩
  · have hmove :
      Machine.execute env i t (.store .word ((Memory.ofBase window).indexed address) value) =
        .ok (.next, t.setWindow (t.memory.window.setWord a v)) := by
      rw [Machine.execute, Machine.writeMemory_word hm (hwide rfl), Registers.read, hvalue]
      rfl
    exact ⟨_, .quiet ht rfl (.single hmove (Machine.directEvents_word hm (hwide rfl) true)),
      hmirrors.setWindow _, fun hread => Bool.noConfusion hread⟩

/-- An access that is served **by a handler** is a single call, at the clock count of the guest. -/
theorem runs_slowPath (hsound : env.Sound) (h : Mirrors env g s) {access : Access} {a : Address}
    {v : BitVec 16} (ha : s.registers.get address = a.setWidth 64)
    (hv : (s.registers.get value).setWidth 16 = v) (hserved : ¬ access.Served a) :
    ∃ t, Runs env i (access.slowPath env.layout) s [.call (access.request a v) g.cycles] t ∧
      Mirrors env (access.perform i a v g).2 t ∧
      (access.write = false →
        t.registers.get result = (access.perform i a v g).1.setWidth 64) := by
  obtain ⟨t, ht, hmirrors, residue, hresult⟩ := runs_callHandler (i := i) hsound h access.handler
    (access.request a v) (access.requestOf_handler ha hv)
  rw [Access.perform_of_not_served hserved]
  obtain ⟨wide, _ | _⟩ := access
  · -- the handler leaves something above its result
    cases wide with
    | false =>
      refine ⟨_, ht.append (.single rfl rfl), hmirrors.setResult _, fun _ => ?_⟩
      have hlow := low_resultByte residue (i.read8 a g.cycles g.memory).1
      rw [Machine.get_setRegister, if_pos rfl, Registers.read, hresult]
      exact (congrArg (BitVec.setWidth 64) hlow).trans (BitVec.setWidth_setWidth (by decide)).symm
    | true =>
      refine ⟨_, ht.append (.single rfl rfl), hmirrors.setResult _, fun _ => ?_⟩
      rw [Machine.get_setRegister, if_pos rfl, Registers.read, hresult]
      exact congrArg (BitVec.setWidth 64) (low_resultWord residue _)
  · exact ⟨t, ht.append (.nil t), hmirrors, fun hread => Bool.noConfusion hread⟩

/-- **An access** goes through one path, in the window or through a handler, and does the same as
the access of the interpreter. -/
theorem runs_path (hsound : env.Sound) (h : Mirrors env g s) (access : Access) {a : Address}
    {v : BitVec 16} (ha : s.registers.get address = a.setWidth 64)
    (hv : (s.registers.get value).setWidth 16 = v) :
    ∃ t, Runs env i
        (if access.isFast a then access.fastPath env.layout else access.slowPath env.layout) s
        [access.event a v g.cycles] t ∧
      Mirrors env (access.perform i a v g).2 t ∧
      (access.write = false →
        t.registers.get result = (access.perform i a v g).1.setWidth 64) := by
  rw [Access.event]
  by_cases hserved : access.Served a
  · rw [if_pos hserved, if_pos ((access.isFast_iff_served a).mpr hserved)]
    exact runs_fastPath h ha hv hserved
  · rw [if_neg hserved, if_neg fun hfast => hserved ((access.isFast_iff_served a).mp hfast)]
    exact runs_slowPath hsound h ha hv hserved

/-- **An access**, to an address that is in `rsi` or known while compiling: its code has one event,
and does the same as the access of the interpreter. -/
theorem yields_perform (hsound : env.Sound) (h : Mirrors env g s) (access : Access)
    {target : GuestAddress} {a : Address} (ha : target.Holds s a) {v : BitVec 16}
    (hv : (s.registers.get value).setWidth 16 = v) :
    ∃ t, Yields env i (access.code env.layout target) s [access.event a v g.cycles] .through t ∧
      Mirrors env (access.perform i a v g).2 t ∧
      (access.write = false →
        t.registers.get result = (access.perform i a v g).1.setWidth 64) :=
  yields_access h access ha fun _ h' haddress hchanges =>
    runs_path hsound h' access haddress ((hchanges.registers value (by decide)).symm ▸ hv)

/-- **Reading a byte**, which is zero-extended in the result register. -/
theorem yields_read8 (hsound : env.Sound) (h : Mirrors env g s)
    {target : GuestAddress} {a : Address}
    (ha : target.Holds s a) :
    ∃ t, Yields env i (read8 env.layout target) s [(Demand.read a).event g.cycles] .through t ∧
      Mirrors env (g.read8 i a).2 t ∧ t.registers.get result = (g.read8 i a).1.setWidth 64 := by
  obtain ⟨t, ht, hmirrors, hresult⟩ := yields_perform (i := i) hsound h ⟨false, false⟩ ha rfl
  rw [Access.event_read8] at ht
  rw [Access.perform_read8] at hmirrors hresult
  exact ⟨t, ht, hmirrors, (hresult rfl).trans (BitVec.setWidth_setWidth (by decide))⟩

/-- **Writing** the low byte of `rdx`. -/
theorem yields_write8 (hsound : env.Sound) (h : Mirrors env g s)
    {target : GuestAddress} {a : Address}
    (ha : target.Holds s a) {v : Byte} (hv : (s.registers.get value).setWidth 8 = v) :
    ∃ t, Yields env i (write8 env.layout target) s [(Demand.write a v).event g.cycles] .through t ∧
      Mirrors env (g.write8 i a v) t := by
  obtain ⟨t, ht, hmirrors, -⟩ := yields_perform (i := i) hsound h ⟨false, true⟩ ha rfl
  have hlow : ((s.registers.get value).setWidth 16).setWidth 8 = v :=
    (BitVec.setWidth_setWidth_of_le _ (by decide)).trans hv
  rw [Access.event_write8, hlow] at ht
  rw [Access.perform_write8, hlow] at hmirrors
  exact ⟨t, ht, hmirrors⟩

/-- **Writing** the low word of `rdx`. -/
theorem yields_write16 (hsound : env.Sound) (h : Mirrors env g s)
    {target : GuestAddress} {a : Address}
    (ha : target.Holds s a) {v : BitVec 16} (hv : (s.registers.get value).setWidth 16 = v) :
    ∃ t, Yields env i (write16 env.layout target) s [(Demand.writeWord a v).event g.cycles]
      .through t ∧
      Mirrors env (g.write16 i a v) t := by
  obtain ⟨t, ht, hmirrors, -⟩ := yields_perform (i := i) hsound h ⟨true, true⟩ ha hv
  rw [Access.event_write16] at ht
  rw [Access.perform_write16] at hmirrors
  exact ⟨t, ht, hmirrors⟩

end Codegen

end Dynarec
