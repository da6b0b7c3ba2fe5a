import Dynarec.Proofs.Assembly.ReadBack
import Dynarec.Proofs.Codegen.Views
import Dynarec.Proofs.Vm.History
import Dynarec.Vm.Trampoline

/-!
# Calling a block

`VirtualMachine.execute` says what the execution of a block amounts to: the guest registers are in
their host registers on entry, and are taken out again afterwards. The host does so with the
**entry trampoline**. What the trampoline does before the call, at the call and after it
is said by `leads_entryCode`, `execute_call` and `run_exitCode`, for every program that it calls:
the program is entered with the guest registers and leaves them, and the registers that the caller
expects to be preserved are (`run_code`).

So entering a block is executing it in the host that the trampoline leaves it in
(`enter_eq_execute`), whose stack is aligned because the trampoline has pushed seven words
(`Environment.Sound.of_call`). For the blocks of guest code it makes no difference which host that
is (`enter_of_belongsTo`), and a machine executes no others (`Workbench.enter_of_block?`).
-/

namespace Dynarec

open Assembly (entries straightBytes)
open Bridge (MemoryInterface)
open Codegen (CompiledBlock accumulator cycleCounter guestToShadow operand pairRegister
  rebiasStackPointer result scratchFlags shadowFlags shadowToGuest stackPointer value)
open Guest (ExitReason)
open Host (Instruction Program Register Registers disassemble)
open Machine (Changes Environment State)

variable {σ : Type}

namespace Trampoline

/-- The trampoline **can be emitted**, and its machine code reads back as the instructions that it
is made of, whatever the host address of the window. -/
theorem disassemble_code (windowBase : HostWord) :
    disassemble (straightBytes (code windowBase)) = some (entries 0 (code windowBase)) := by
  have hencodable : (code windowBase).all (·.fault? == none) = true := rfl
  exact Assembly.disassemble_straightBytes fun j hj =>
    beq_iff_eq.mp (List.all_eq_true.mp hencodable j hj)

/-! ### Running pieces of code -/

variable {h : Surroundings} {i : MemoryInterface σ} {s t : State σ} {c c' : Cpu}
  {f f' f'' : Frame σ} {instruction : Instruction} {is js : List Instruction}

/-- Executing instructions **leads** from one frame to another, whatever comes after them. -/
def Leads (h : Surroundings) (i : MemoryInterface σ) (is : List Instruction) (f f' : Frame σ) :
    Prop :=
  ∀ rest, run h i (is ++ rest) f = run h i rest f'

theorem Leads.nil (f : Frame σ) : Leads h i [] f f := fun _ => rfl

/-- An instruction that goes on to the next one, in front of others. -/
theorem Leads.cons (hfirst : execute h i f instruction = .ok (.next, f'))
    (hrest : Leads h i is f' f'') : Leads h i (instruction :: is) f f'' := fun rest => by
  rw [List.cons_append, run, hfirst]
  exact hrest rest

/-- Pieces of code that lead on can be put together. -/
theorem Leads.append (hfirst : Leads h i is f f') (hrest : Leads h i js f' f'') :
    Leads h i (is ++ js) f f'' := fun rest => by
  rw [List.append_assoc, hfirst, hrest]

/-- Whether an instruction is about registers, flags and the host stack only, so that it does in the
trampoline what it does in generated code. -/
def isLocal : Instruction → Bool
  | .movzx _ _ (.memory _) | .load .. | .store .. | .call _ => false
  | _ => true

/-- A local instruction is executed as in generated code, whatever is in the record. -/
theorem execute_of_isLocal (hlocal : isLocal instruction = true) (f : Frame σ) :
    execute h i f instruction = (Machine.execute h.env i f.machine instruction).map
      fun (flow, s) => (flow, { f with machine := s }) := by
  cases instruction with
  | movzx wide dst src =>
    cases src with
    | register _ => rfl
    | memory _ => cases hlocal
  | load _ _ _ | store _ _ _ | call _ => cases hlocal
  | _ => rfl

/-- Local instructions do what they do **in generated code**, and leave the record alone. -/
theorem Leads.of_runs {es : List Machine.Event} (hruns : Machine.Runs h.env i is s es t)
    (hlocal : ∀ j ∈ is, isLocal j = true) (c : Cpu) : Leads h i is ⟨s, c⟩ ⟨t, c⟩ := by
  induction hruns with
  | nil => exact .nil _
  | @cons j is s u t es hj _ ih =>
    obtain ⟨hlocal, hrest⟩ := List.forall_mem_cons.mp hlocal
    refine .cons ?_ (ih hrest)
    rw [execute_of_isLocal hlocal, hj]
    rfl

/-! ### The host stack -/

/-- What **moving words** between the host stack and some registers leaves alone. -/
structure Moved (env : Environment) (rs : List Register) (s t : State σ) : Prop where
  registers : ∀ r, r ≠ .rsp → r ∉ rs → t.registers.get r = s.registers.get r
  contextCycles : t.contextCycles = s.contextCycles
  memory : t.memory = s.memory
  balanced : t.isBalanced env = true

/-- Words that are moved one after another leave the same registers alone. -/
theorem Moved.trans {env : Environment} {rs : List Register} {s t u : State σ}
    (h : Moved env rs s t) (h' : Moved env rs t u) : Moved env rs s u where
  registers r hr hrs := (h'.registers r hr hrs).trans (h.registers r hr hrs)
  contextCycles := h'.contextCycles.trans h.contextCycles
  memory := h'.memory.trans h.memory
  balanced := h'.balanced

/-- Registers are **pushed** one after another, the last one ending up on top. The induction is on
the registers, for any words below them. -/
theorem leads_push {rs : List Register} (hrs : .rsp ∉ rs) (hs : s.isBalanced h.env = true)
    (c : Cpu) :
    ∃ t, Leads h i (rs.map .push) ⟨s, c⟩ ⟨t, c⟩ ∧
      t.stack = (rs.map s.registers.get).reverse ++ s.stack ∧ Moved h.env [] s t := by
  induction rs generalizing s with
  | nil => exact ⟨s, .nil _, rfl, fun _ _ _ => rfl, rfl, rfl, hs⟩
  | cons r rs ih =>
    rw [List.mem_cons, not_or] at hrs
    have hpush : execute h i ⟨s, c⟩ (.push r) =
        .ok (.next, ⟨s.pushed (s.registers.get r), c⟩) := by
      rw [execute_of_isLocal rfl, Machine.execute, Machine.push_eq hs]
      rfl
    have hmoved : Moved h.env [] s (s.pushed (s.registers.get r)) :=
      ⟨fun q hq _ => by rw [Machine.get_pushed, if_neg hq], rfl, rfl,
        Machine.isBalanced_pushed hs _⟩
    obtain ⟨t, ht, hstack, hrest⟩ := ih hrs.2 hmoved.balanced
    refine ⟨t, .cons hpush ht, ?_, hmoved.trans hrest⟩
    have hsame : rs.map (s.pushed (s.registers.get r)).registers.get =
        rs.map s.registers.get := List.map_congr_left fun q hq =>
      hmoved.registers q (fun hrsp => hrs.2 (hrsp ▸ hq)) List.not_mem_nil
    rw [hstack, hsame, List.map_cons, List.reverse_cons, List.append_assoc]
    rfl

/-- Registers are **popped** one after another, each of them the word on top. None may occur twice,
for its first value would be lost. -/
theorem leads_pop {rs : List Register} (hnodup : (.rsp :: rs).Nodup)
    {values : Register → HostWord} {rest : List HostWord} (hs : s.isBalanced h.env = true)
    (hstack : s.stack = rs.map values ++ rest) (c : Cpu) :
    ∃ t, Leads h i (rs.map .pop) ⟨s, c⟩ ⟨t, c⟩ ∧ t.stack = rest ∧
      (∀ r ∈ rs, t.registers.get r = values r) ∧ Moved h.env rs s t := by
  induction rs generalizing s with
  | nil => exact ⟨s, .nil _, hstack, nofun, fun _ _ _ => rfl, rfl, rfl, hs⟩
  | cons r rs ih =>
    obtain ⟨hrsp, hnodup⟩ := List.nodup_cons.mp hnodup
    obtain ⟨hr, hrs⟩ := List.nodup_cons.mp hnodup
    obtain ⟨hne, hrsp⟩ := not_or.mp (mt List.mem_cons.mpr hrsp)
    have hpop : execute h i ⟨s, c⟩ (.pop r) =
        .ok (.next, ⟨(s.popped (rs.map values ++ rest)).setRegister r (values r), c⟩) := by
      rw [execute_of_isLocal rfl, Machine.execute, Machine.pop_eq hs hstack]
      rfl
    -- the register that is popped is not `rsp`, which has moved up by a word
    have hmoved : Moved h.env (r :: rs) s
        ((s.popped (rs.map values ++ rest)).setRegister r (values r)) := by
      refine ⟨fun q hq hqrs => ?_, rfl, rfl, ?_⟩
      · rw [Machine.get_setRegister, if_neg fun hqr : q = r => hqrs (hqr ▸ List.mem_cons_self),
          Machine.get_popped, if_neg hq]
      · have hset := (Changes.refl [r] (s.popped (rs.map values ++ rest))).setRegister
          List.mem_cons_self (values r)
        rw [hset.isBalanced_eq (mt List.mem_singleton.mp hne)]
        exact Machine.isBalanced_popped hs hstack
    obtain ⟨t, ht, hrest, hvalues, hmoved'⟩ := ih (List.nodup_cons.mpr ⟨hrsp, hrs⟩)
      hmoved.balanced rfl
    refine ⟨t, .cons hpop ht, hrest, List.forall_mem_cons.mpr ⟨?_, hvalues⟩,
      hmoved.trans { hmoved' with
        registers := fun q hq hqrs => hmoved'.registers q hq (mt (List.mem_cons_of_mem _) hqrs) }⟩
    rw [hmoved'.registers r (Ne.symm hne) hr, Machine.get_setRegister, if_pos rfl]

/-! ### The record -/

/-- A field of the record is found at its place, if `rdi` holds the address of the record. -/
theorem fieldAt_place (hrecord : s.registers.get .rdi = h.record) (field : Cpu.Field) :
    h.fieldAt (Machine.effectiveAddress s.registers (place field)) = .ok field := by
  rw [place, Machine.effectiveAddress_offset, hrecord, Surroundings.fieldAt, BitVec.add_comm,
    BitVec.add_sub_cancel, Cpu.Field.ofOffset?_offset]

/-- The low byte or the low word of a field is loaded, zero-extended. -/
theorem execute_movzx (hrecord : s.registers.get .rdi = h.record) (wide : Bool) (dst : Register)
    (field : Cpu.Field) :
    execute h i ⟨s, c⟩ (.movzx wide dst (.memory (place field))) =
      .ok (.next, ⟨s.setRegister dst (lowBits (if wide then 16 else 8) (c.get field)), c⟩) := by
  rw [execute, fieldAt_place hrecord]
  rfl

/-- A field is loaded as it is. -/
theorem execute_load (hrecord : s.registers.get .rdi = h.record) (dst : Register)
    (field : Cpu.Field) :
    execute h i ⟨s, c⟩ (.load .qword dst (place field)) =
      .ok (.next, ⟨s.setRegister dst (c.get field), c⟩) := by
  rw [execute, fieldAt_place hrecord]
  rfl

/-- A field is stored as it is, and the others stay. -/
theorem execute_store (hrecord : s.registers.get .rdi = h.record) (field : Cpu.Field)
    (src : Register) :
    execute h i ⟨s, c⟩ (.store .qword (place field) src) =
      .ok (.next, ⟨s, c.set field (s.registers.get src)⟩) := by
  rw [execute, fieldAt_place hrecord]
  rfl

/-! ### Entering -/

/-- Whether the guest registers are **loaded**, each into its host register. -/
structure Loaded (windowBase : HostWord) (c : Cpu) (rs : Registers) : Prop where
  a : rs.get accumulator = lowBits 8 c.a
  bc : rs.get (pairRegister .bc) = lowBits 16 c.bc
  de : rs.get (pairRegister .de) = lowBits 16 c.de
  hl : rs.get (pairRegister .hl) = lowBits 16 c.hl
  cycles : rs.get cycleCounter = c.cycles
  flags : rs.get shadowFlags = shadowOfGuest (lowBits 8 c.f)
  sp : rs.get stackPointer = windowBase ||| lowBits 16 c.sp

/-- A, the pairs, the cycles and F are loaded one after another, each from its field. F is left in
`rax`, where it is turned into shadow flags afterwards. -/
theorem leads_loadCode (hrecord : s.registers.get .rdi = h.record) (c : Cpu) :
    ∃ t, Leads h i loadCode ⟨s, c⟩ ⟨t, c⟩ ∧
      Changes [accumulator, pairRegister .bc, pairRegister .de, pairRegister .hl, cycleCounter,
        result] s t ∧
      t.registers.get accumulator = lowBits 8 c.a ∧
      t.registers.get (pairRegister .bc) = lowBits 16 c.bc ∧
      t.registers.get (pairRegister .de) = lowBits 16 c.de ∧
      t.registers.get (pairRegister .hl) = lowBits 16 c.hl ∧
      t.registers.get cycleCounter = c.cycles ∧ t.registers.get result = lowBits 8 c.f := by
  refine ⟨_, .cons (execute_movzx hrecord _ _ _) <| .cons (execute_movzx ?_ _ _ _) <|
    .cons (execute_movzx ?_ _ _ _) <| .cons (execute_movzx ?_ _ _ _) <|
    .cons (execute_load ?_ _ _) <| .cons (execute_movzx ?_ _ _ _) <| .nil _,
    .setRegister (.setRegister (.setRegister (.setRegister (.setRegister (.setRegister
      (.refl _ _) ?_ _) ?_ _) ?_ _) ?_ _) ?_ _) ?_ _, ?_⟩
  all_goals first | decide | simp [pairRegister, hrecord, Cpu.get]

/-- Before the call, the registers are saved and the guest registers **loaded**. The address of the
program is still in `rsi`. -/
theorem leads_entryCode (hs : s.isBalanced h.env = true)
    (hrecord : s.registers.get .rdi = h.record) (c : Cpu) :
    ∃ t, Leads h i (entryCode h.env.layout.windowBase) ⟨s, c⟩ ⟨t, c⟩ ∧
      Loaded h.env.layout.windowBase c t.registers ∧
      t.stack = (savedRegisters.map s.registers.get).reverse ++ s.stack ∧
      t.registers.get .rsi = s.registers.get .rsi ∧ t.contextCycles = s.contextCycles ∧
      t.memory = s.memory ∧ t.isBalanced h.env = true := by
  have hsaved : .rsp ∉ savedRegisters := by decide
  obtain ⟨s₁, hs₁, hstack₁, hmoved₁⟩ := leads_push (i := i) hsaved hs c
  have hrecord₁ : s₁.registers.get .rdi = h.record :=
    (hmoved₁.registers _ (by decide) List.not_mem_nil).trans hrecord
  obtain ⟨s₂, hs₂, hchanges₂, ha, hbc, hde, hhl, hcycles, hf⟩ :=
    leads_loadCode (i := i) hrecord₁ c
  obtain ⟨s₃, hs₃, hchanges₃, hflags⟩ := Codegen.runs_shadowOfGuest h.env i s₂
  have hrecord₃ : s₃.registers.get .rdi = h.record := by
    rw [hchanges₃.registers _ (by decide), hchanges₂.registers _ (by decide), hrecord₁]
  have hsp : Leads h i [.movzx true result (.memory (place .sp))] ⟨s₃, c⟩
      ⟨s₃.setRegister result (lowBits 16 c.sp), c⟩ :=
    .cons (execute_movzx hrecord₃ true result .sp) (.nil _)
  obtain ⟨s₄, hs₄, hchanges₄, hpointer⟩ := Codegen.runs_rebiasStackPointer h.env i
    h.env.layout.windowBase (by decide : result ≠ stackPointer)
    (s₃.setRegister result (lowBits 16 c.sp))
  -- what follows the loads leaves what they have loaded
  have hchanges : Changes [result, operand, shadowFlags, stackPointer] s₂ s₄ :=
    ((hchanges₃.mono (by decide)).setRegister List.mem_cons_self _).trans
      (hchanges₄.mono (by decide))
  have hall : Changes [accumulator, pairRegister .bc, pairRegister .de, pairRegister .hl,
      cycleCounter, result, operand, shadowFlags, stackPointer] s₁ s₄ :=
    (hchanges₂.mono (by decide)).trans (hchanges.mono (by decide))
  have hshadow := Leads.of_runs hs₃ (by decide) c
  have hrebias := Leads.of_runs hs₄ (by simp [rebiasStackPointer, isLocal]) c
  refine ⟨s₄, (((hs₁.append hs₂).append hshadow).append hsp).append hrebias, ?_,
    hall.stack.trans hstack₁, ?_, hall.contextCycles.trans hmoved₁.contextCycles,
    hall.memory.trans hmoved₁.memory, ?_⟩
  · have hguest : s₄.registers.get shadowFlags = shadowOfGuest (lowBits 8 c.f) := by
      rw [hchanges₄.registers _ (by decide), Machine.get_setRegister, if_neg (by decide), hflags,
        hf, Codegen.shadowOfGuest_eq]
      simp [lowBits]
    have hsum : s₄.registers.get stackPointer = h.env.layout.windowBase ||| lowBits 16 c.sp := by
      rw [hpointer, Machine.get_setRegister, if_pos rfl]
    exact ⟨(hchanges.registers _ (by decide)).trans ha,
      (hchanges.registers _ (by decide)).trans hbc,
      (hchanges.registers _ (by decide)).trans hde,
      (hchanges.registers _ (by decide)).trans hhl,
      (hchanges.registers _ (by decide)).trans hcycles, hguest, hsum⟩
  · exact (hall.registers _ (by decide)).trans
      (hmoved₁.registers _ (by decide) List.not_mem_nil)
  · rw [hall.isBalanced_eq (by decide)]
    exact hmoved₁.balanced

/-! ### The call -/

/-- A program is **called** in the state in which a block is entered. -/
theorem entered_eq (hloaded : Loaded h.env.layout.windowBase c s.registers) :
    { s with registers := s.registers.set .rsp (h.callee s).stackTop, stack := [] } =
      c.enter (h.callee s) s.contextCycles s.memory := by
  have hregisters : s.registers.set .rsp (h.callee s).stackTop = c.registers (h.callee s) :=
    Registers.ext fun r => by
      rw [Cpu.registers, ← hloaded.a, ← hloaded.bc, ← hloaded.de, ← hloaded.hl, ← hloaded.cycles,
        ← hloaded.flags, Surroundings.callee, ← hloaded.sp]
      cases r <;> simp [Registers.get_set, pairRegister]
  rw [Cpu.enter, ← hregisters]
  rfl

/-- The machine **when a program has returned**: the caller has its part of the host stack back. -/
def returned (s left : State σ) : State σ :=
  { left with
    registers := left.registers.set .rsp (left.registers.get .rsp + 8)
    stack := s.stack }

/-- The **call** enters the program like a block, in a host whose stack ends at the return address
of the call. -/
theorem execute_call {p : Program} (hs : s.isBalanced h.env = true)
    (hloaded : Loaded h.env.layout.windowBase c s.registers)
    (hprogram : h.program? (s.registers.get .rsi) = some p) :
    execute h i ⟨s, c⟩ (.call (some (.register .rsi))) =
      (Machine.run (h.callee s) i p (c.enter (h.callee s) s.contextCycles s.memory)).map
        fun left => (.next, ⟨returned s left, c⟩) := by
  rw [execute, Surroundings.callProgram, hprogram]
  simp only [hs, if_true, entered_eq hloaded]
  cases Machine.run (h.callee s) i p (c.enter (h.callee s) s.contextCycles s.memory) <;> rfl

/-- A program that returns leaves the host stack as it has found it: it has taken off what it has
put there, and its return takes the return address. -/
theorem isBalanced_returned {p : Program} {entered left : State σ}
    (hs : s.isBalanced h.env = true) (hleft : Machine.run (h.callee s) i p entered = .ok left) :
    (returned s left).isBalanced h.env = true := by
  obtain ⟨hbalanced, hstack⟩ := Machine.isBalanced_of_run hleft
  have hrsp : left.registers.get .rsp = s.registers.get .rsp - 8 := by
    simpa [State.isBalanced, hstack, Surroundings.callee] using hbalanced
  have hsame : (returned s left).registers.get .rsp = s.registers.get .rsp := by
    rw [returned, Registers.get_set, if_pos rfl, hrsp, BitVec.sub_add_cancel]
  rw [State.isBalanced, hsame]
  exact hs

/-! ### Leaving -/

/-- What is taken out of the host registers does not depend on those that are about the stack and
the record. -/
theorem leave_congr {rs rs' : Registers}
    (hsame : ∀ r, r ≠ .rsp → r ≠ .rdi → rs.get r = rs'.get r) :
    Cpu.leave rs = Cpu.leave rs' ∧ Cpu.exitCode rs = Cpu.exitCode rs' := by
  constructor
  · simp only [Cpu.leave, hsame accumulator (by decide) (by decide),
      hsame shadowFlags (by decide) (by decide),
      hsame (pairRegister .bc) (by decide) (by decide),
      hsame (pairRegister .de) (by decide) (by decide),
      hsame (pairRegister .hl) (by decide) (by decide),
      hsame stackPointer (by decide) (by decide), hsame value (by decide) (by decide),
      hsame cycleCounter (by decide) (by decide)]
  · rw [Cpu.exitCode, hsame result (by decide) (by decide), Cpu.exitCode]

/-- The next guest address, A, the pairs, the cycles and SP are stored one after another, each to
its field. F is still the old one. -/
theorem leads_storeCode (hrecord : s.registers.get .rdi = h.record) (c : Cpu) :
    ∃ t, Leads h i storeCode ⟨s, c⟩ ⟨t, { Cpu.leave s.registers with f := c.f }⟩ ∧
      Changes [scratchFlags, value, operand] s t ∧
      t.registers.get scratchFlags = Cpu.exitCode s.registers := by
  -- the reason is put aside, and the next guest address is extended
  obtain ⟨u, hu, hchanges, hreason, hvalue⟩ : ∃ u,
      Leads h i [.mov .dword scratchFlags (.register result), .movzx true value (.register value)]
        ⟨s, c⟩ ⟨u, c⟩ ∧ Changes [scratchFlags, value] s u ∧
      u.registers.get scratchFlags = Cpu.exitCode s.registers ∧
      u.registers.get value = lowBits 16 (s.registers.get value) := by
    refine ⟨_, .cons rfl (.cons rfl (.nil _)),
      ((Changes.refl _ s).writeRegister List.mem_cons_self _ _).setRegister (by decide) _, ?_, ?_⟩
    · rw [Machine.get_setRegister, if_neg (by decide), Machine.get_writeRegister, if_pos rfl]
      rfl
    · rw [Machine.get_setRegister, if_pos rfl, Registers.read, Machine.get_writeRegister,
        if_neg (by decide)]
      rfl
  have hrecord' : u.registers.get .rdi = h.record :=
    (hchanges.registers _ (by decide)).trans hrecord
  -- SP goes through another register, since the window base is above it
  obtain ⟨t, ht, hchanges', hsp⟩ : ∃ t,
      (∀ c, Leads h i [.movzx true operand (.register stackPointer)] ⟨u, c⟩ ⟨t, c⟩) ∧
      Changes [operand] u t ∧
      t.registers.get operand = lowBits 16 (u.registers.get stackPointer) := by
    refine ⟨u.setRegister operand ((u.registers.read .word stackPointer).setWidth 64),
      fun c => .cons rfl (.nil _), (Changes.refl _ u).setRegister List.mem_cons_self _, ?_⟩
    rw [Machine.get_setRegister, if_pos rfl]
    rfl
  have hrecord'' : t.registers.get .rdi = h.record :=
    (hchanges'.registers _ (by decide)).trans hrecord'
  have hall : Changes [scratchFlags, value, operand] s t :=
    (hchanges.mono (by decide)).trans (hchanges'.mono (by decide))
  have hcode := hu.append (.cons (execute_store hrecord' .pc value) <|
    .cons (execute_store hrecord' .a accumulator) <|
    .cons (execute_store hrecord' .bc (pairRegister .bc)) <|
    .cons (execute_store hrecord' .de (pairRegister .de)) <|
    .cons (execute_store hrecord' .hl (pairRegister .hl)) <|
    .cons (execute_store hrecord' .cycles cycleCounter) <|
    (ht _).append (.cons (execute_store hrecord'' .sp operand) (.nil _)))
  refine ⟨t, ?_, hall, (hchanges'.registers _ (by decide)).trans hreason⟩
  simp only [Cpu.set, hvalue, hsp, hchanges.registers accumulator (by decide),
    hchanges.registers (pairRegister .bc) (by decide),
    hchanges.registers (pairRegister .de) (by decide),
    hchanges.registers (pairRegister .hl) (by decide),
    hchanges.registers cycleCounter (by decide),
    hchanges.registers stackPointer (by decide)] at hcode
  exact hcode

/-- After the call, the guest registers are **stored**, the reason is returned, and the registers
that were saved are restored. -/
theorem run_exitCode {saved : Register → HostWord} (hs : s.isBalanced h.env = true)
    (hstack : s.stack = (savedRegisters.map saved).reverse) (hrecord : saved .rdi = h.record)
    (c : Cpu) :
    ∃ t, run h i exitCode ⟨s, c⟩ = .ok ⟨t, Cpu.leave s.registers⟩ ∧
      t.registers.get result = Cpu.exitCode s.registers ∧
      t.contextCycles = s.contextCycles ∧ t.memory = s.memory ∧
      t.isBalanced h.env = true ∧ t.stack = [] ∧
      ∀ r ∈ savedRegisters.take 6, t.registers.get r = saved r := by
  have hlast : (.rsp :: [Register.rdi]).Nodup := by decide
  have hothers : (.rsp :: (savedRegisters.take 6).reverse).Nodup := by decide
  -- the last register that was saved points to the record
  have hstack₀ : s.stack = [Register.rdi].map saved ++ (savedRegisters.take 6).reverse.map saved :=
    hstack
  obtain ⟨s₁, hs₁, hstack₁, hsaved₁, hmoved₁⟩ := leads_pop (i := i) hlast hs hstack₀ c
  have hrecord₁ : s₁.registers.get .rdi = h.record :=
    (hsaved₁ _ List.mem_cons_self).trans hrecord
  have hkept₁ (r : Register) (hrsp : r ≠ .rsp) (hrdi : r ≠ .rdi) :
      s₁.registers.get r = s.registers.get r :=
    hmoved₁.registers r hrsp (mt List.mem_singleton.mp hrdi)
  obtain ⟨hleave, hexit⟩ := leave_congr hkept₁
  obtain ⟨s₂, hs₂, hchanges₂, hreason⟩ := leads_storeCode (i := i) hrecord₁ c
  -- F is the last one to be stored, since the result is needed for it
  obtain ⟨s₃, hs₃, hchanges₃, hf⟩ := Codegen.runs_guestOfShadow h.env i s₂
  have hrecord₃ : s₃.registers.get .rdi = h.record := by
    rw [hchanges₃.registers _ (by decide), hchanges₂.registers _ (by decide), hrecord₁]
  have hcpu : { Cpu.leave s₁.registers with f := c.f }.set .f (s₃.registers.get result) =
      Cpu.leave s.registers := by
    rw [hf, hchanges₂.registers _ (by decide), ← hleave]
    rfl
  obtain ⟨s₄, hs₄, hchanges₄, hcode⟩ : ∃ s₄,
      Leads h i [.store .qword (place .f) result, .mov .dword result (.register scratchFlags)]
        ⟨s₃, { Cpu.leave s₁.registers with f := c.f }⟩ ⟨s₄, Cpu.leave s.registers⟩ ∧
      Changes [result] s₃ s₄ ∧ s₄.registers.get result = Cpu.exitCode s.registers := by
    refine ⟨Machine.writeRegister s₃ .dword result (s₃.registers.read .dword scratchFlags),
      .cons (execute_store hrecord₃ .f result) ?_,
      (Changes.refl _ s₃).writeRegister List.mem_cons_self _ _, ?_⟩
    · rw [hcpu]
      exact .cons rfl (.nil _)
    · rw [Machine.get_writeRegister, if_pos rfl, Registers.read,
        hchanges₃.registers scratchFlags (by decide), hreason, hexit, Cpu.exitCode]
      simp [lowBits]
  have hchanges : Changes [scratchFlags, value, operand, result] s₁ s₄ :=
    (hchanges₂.mono (by decide)).trans <| (hchanges₃.mono (by decide)).trans
      (hchanges₄.mono (by decide))
  have hbalanced₄ : s₄.isBalanced h.env = true :=
    (hchanges.isBalanced_eq (by decide)).trans hmoved₁.balanced
  have hstack₄ : s₄.stack = (savedRegisters.take 6).reverse.map saved ++ [] := by
    rw [hchanges.stack, hstack₁, List.append_nil]
  obtain ⟨s₅, hs₅, hstack₅, hsaved₅, hmoved₅⟩ :=
    leads_pop (i := i) hothers hbalanced₄ hstack₄ (Cpu.leave s.registers)
  have hpieces := ((((hs₁.append hs₂).append (Leads.of_runs hs₃ (by decide) _)).append hs₄).append
    hs₅) [.ret]
  refine ⟨s₅, ?_, ?_, ?_, ?_, hmoved₅.balanced, hstack₅, fun r hr => hsaved₅ r (by simpa using hr)⟩
  · refine hpieces.trans ?_
    rw [run, execute_of_isLocal rfl, Machine.execute, if_pos hmoved₅.balanced, hstack₅]
    rfl
  · rw [hmoved₅.registers _ (by decide) (by decide), hcode]
  · rw [hmoved₅.contextCycles, hchanges.contextCycles, hmoved₁.contextCycles]
  · rw [hmoved₅.memory, hchanges.memory, hmoved₁.memory]

/-! ### From the call to the return -/

/-- The **trampoline calls a program like a block**, in the host that it has made for it: with the
guest registers of the record, 64 bytes further down on the host stack, seven words and the return
address. A trap of the program is one of the trampoline. If the program returns, then so does the
trampoline, with the same reason and effects on guest memory, the record holds the guest registers
that the program has left, and the registers that a call preserves are as they have been. -/
theorem run_code {p : Program} (hentry : s.AtEntry h.env)
    (hrecord : s.registers.get .rdi = h.record)
    (hprogram : h.program? (s.registers.get .rsi) = some p) (c : Cpu) :
    ∃ env : Environment, env.layout = h.env.layout ∧ env.device = h.env.device ∧
      env.stackTop = s.registers.get .rsp - 64 ∧
      match Machine.run env i p (c.enter env s.contextCycles s.memory) with
      | .error trap => run h i (code h.env.layout.windowBase) ⟨s, c⟩ = .error trap
      | .ok left =>
        ∃ t, run h i (code h.env.layout.windowBase) ⟨s, c⟩ = .ok ⟨t, Cpu.leave left.registers⟩ ∧
          t.registers.get result = Cpu.exitCode left.registers ∧
          t.contextCycles = left.contextCycles ∧ t.memory = left.memory ∧
          ∀ r, r ∉ Machine.callerSaved → t.registers.get r = s.registers.get r := by
  obtain ⟨u, hu, hloaded, hstack, hrsi, hcycles, hmemory, hbalanced⟩ :=
    leads_entryCode (i := i) hentry.isBalanced hrecord c
  rw [hentry.stack, List.append_nil] at hstack
  have htop : (h.callee u).stackTop = s.registers.get .rsp - 64 := by
    have hrsp : u.registers.get .rsp = h.env.stackTop - 56 := by
      simpa [State.isBalanced, hstack, savedRegisters] using hbalanced
    rw [Surroundings.callee, hrsp, hentry.stackPointer, BitVec.sub_sub]
    rfl
  have hcall := execute_call (i := i) hbalanced hloaded (hrsi ▸ hprogram)
  rw [hcycles, hmemory] at hcall
  refine ⟨h.callee u, rfl, rfl, htop, ?_⟩
  have hcode : run h i (code h.env.layout.windowBase) ⟨s, c⟩ =
      run h i (.call (some (.register .rsi)) :: exitCode) ⟨u, c⟩ := by
    rw [code, List.append_assoc, hu]
    rfl
  rw [hcode, run, hcall]
  rcases hrun : Machine.run (h.callee u) i p (c.enter (h.callee u) s.contextCycles s.memory) with
    trap | left
  · rfl
  · -- the rest of the trampoline finds its stack as it was before the call
    obtain ⟨t, ht, hreason, hcycles', hmemory', hbalanced', hempty, hsaved⟩ :=
      run_exitCode (i := i) (isBalanced_returned hbalanced hrun) hstack hrecord c
    have hleft (r : Register) (hr : r ≠ .rsp) :
        (returned u left).registers.get r = left.registers.get r := by
      rw [returned, Registers.get_set, if_neg hr]
    obtain ⟨hleave, hexit⟩ := leave_congr fun r hr _ => hleft r hr
    refine ⟨t, hleave ▸ ht, hreason.trans hexit, hcycles', hmemory', fun r hr => ?_⟩
    by_cases hrsp : r = .rsp
    · rw [hrsp, hentry.stackPointer]
      simpa [State.isBalanced, hempty] using hbalanced'
    · refine hsaved r ?_
      cases r <;> first | exact absurd rfl hrsp | decide | exact absurd (by decide) hr

end Trampoline

/-! ### Blocks -/

/-- The **seven words** that the trampoline pushes, and the return address, move the host stack from
one call boundary to the next. So a host that calls the trampoline like any function has it call
blocks like any function. -/
theorem Machine.Environment.Sound.of_call {env env' : Environment} (hsound : env.Sound)
    {rsp : HostWord} (haligned : rsp.setWidth 4 = 8#4) (hlayout : env'.layout = env.layout)
    (htop : env'.stackTop = rsp - 64) : env'.Sound where
  windowAligned := hlayout ▸ hsound.windowAligned
  contextApart := hlayout ▸ hsound.contextApart
  stackAligned := by
    rw [htop]
    bv_omega

namespace VirtualMachine

variable {setup : Setup σ} {caller : Caller} {block : CompiledBlock}

/-- **Entering a block is executing it**, in the host that the trampoline calls it in. -/
theorem enter_eq_execute (setup : Setup σ) (caller : Caller) (block : CompiledBlock)
    (vm : VirtualMachine σ) :
    ∃ env : Environment, env.layout = setup.env.layout ∧
      env.stackTop = caller.registers.get .rsp - 64 ∧
      vm.enter setup caller block = vm.execute { setup with env } block := by
  obtain ⟨env, hlayout, hdevice, htop, hrun⟩ :=
    @Trampoline.run_code _ (caller.surroundings setup.env block) setup.interface
      ⟨caller.registers, caller.flags, [], vm.contextCycles, vm.memory⟩ block.program ⟨rfl, rfl⟩ rfl
      (if_pos rfl) vm.cpu
  refine ⟨env, hlayout, htop, ?_⟩
  rw [enter, execute]
  rcases hm : Machine.run env setup.interface block.program
    (vm.cpu.enter env vm.contextCycles vm.memory) with trap | left
  · simp only [hm, Caller.surroundings] at hrun ⊢
    rw [hrun]
  · simp only [hm, Caller.surroundings] at hrun ⊢
    obtain ⟨t, ht, hreason, hcycles, hmemory, -⟩ := hrun
    cases hcode : ExitReason.ofCode? (Cpu.exitCode left.registers) <;>
      simp only [ht, hreason, hcycles, hmemory, hcode]

/-- **For the block of guest code**, it makes no difference which host that is: it is entered by way
of the trampoline, and executed like any other. -/
theorem enter_of_belongsTo (hsound : setup.env.Sound)
    (haligned : (caller.registers.get .rsp).setWidth 4 = 8#4) {image : Guest.Image}
    {start : Address} {listing : List Guest.Placed} {ending : Guest.Ending}
    (h : block.BelongsTo setup.env.layout image start listing ending) (vm : VirtualMachine σ) :
    vm.enter setup caller block = vm.execute setup block := by
  obtain ⟨env, hlayout, htop, henter⟩ := enter_eq_execute setup caller block vm
  have hsound' : ({ setup with env } : Setup σ).env.Sound := hsound.of_call haligned hlayout htop
  have h' : block.BelongsTo ({ setup with env } : Setup σ).env.layout image start listing ending :=
    hlayout ▸ h
  rw [henter, (execute_of_belongsTo hsound' h' vm).1, (execute_of_belongsTo hsound h vm).1]

end VirtualMachine

/-- **Whatever block an operation of a history executes**, the host that enters it by way of the
trampoline does what the machine does that executes it. -/
theorem Workbench.enter_of_block? {setup : Setup σ} {w : Workbench σ} {action : Action}
    {block : CompiledBlock} (hsound : setup.env.Sound) {caller : VirtualMachine.Caller}
    (haligned : (caller.registers.get .rsp).setWidth 4 = 8#4) (hcache : w.vm.cache = .empty)
    (hheld : w.held = []) {history : List Action}
    (h : (w.after setup history).block? setup action = some block) (vm : VirtualMachine σ) :
    vm.enter setup caller block = vm.execute setup block := by
  obtain ⟨image, start, listing, ending, hbelongs⟩ := belongsTo_of_block? hcache hheld h
  exact VirtualMachine.enter_of_belongsTo hsound haligned hbelongs vm

end Dynarec
