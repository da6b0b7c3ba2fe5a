import Dynarec.Proofs.Interpreter.Steps

/-!
# Memory interfaces that agree

Two memory interfaces **agree** under a relation of their devices if they serve every request in the
same way: with the same result and the same changes to the window, and so that related devices stay
related. What they leave in the registers and flags that a callee need not preserve may be
different.

A state of the one interface's machine turns into one of the other's by another device
(`State.withDevice`). The interpreter does the same in both, one instruction at a time
(`Agrees.step`) and over a block (`Agrees.runBlock`), and asks the same of memory.
-/

namespace Dynarec

open Bridge (GuestMemory MemoryInterface Request)
open Guest (ExitReason Operand8 Operation Placed)

variable {σ τ : Type}

/-! ### Agreement -/

namespace Bridge

/-- The same window with **another device** behind it. -/
def GuestMemory.withDevice (m : GuestMemory σ) (e : τ) : GuestMemory τ := ⟨m.window, e⟩

/-- Whether two memory interfaces **agree** under a relation of their devices. Nothing is said of
what they leave in registers and flags, and since the devices need not be of one kind, a device may
record its calls and leave something else each time. -/
structure MemoryInterface.Agrees (i : MemoryInterface σ) (j : MemoryInterface τ)
    (related : σ → τ → Prop) : Prop where
  result : ∀ request cycles m e, related m.device e →
    (j.serve request cycles (m.withDevice e)).1 = (i.serve request cycles m).1
  window : ∀ request cycles m e, related m.device e →
    (j.serve request cycles (m.withDevice e)).2.window = (i.serve request cycles m).2.window
  device : ∀ request cycles m e, related m.device e →
    related (i.serve request cycles m).2.device (j.serve request cycles (m.withDevice e)).2.device

/-- An interface agrees with itself, **whatever it leaves** in registers and flags: it serves
requests in the same way. -/
theorem MemoryInterface.agrees_withResidue (i : MemoryInterface σ)
    (residue : Request → HostWord → GuestMemory σ → Residue) :
    i.Agrees { i with residue } Eq where
  result request cycles m e h := by
    subst h
    cases request <;> rfl
  window request cycles m e h := by
    subst h
    cases request <;> rfl
  device request cycles m e h := by
    subst h
    cases request <;> rfl

end Bridge

namespace Interpreter

/-- The state with **another device** behind the window. -/
def State.withDevice (s : State σ) (e : τ) : State τ :=
  { s with memory := s.memory.withDevice e }

/-- The address of an operand does not depend on the device. -/
theorem operandAddress_withDevice (s : State σ) (e : τ) (o : Operand8) :
    operandAddress (s.withDevice e) o = operandAddress s o := by
  cases o with
  | indirect pair => cases pair <;> rfl
  | _ => rfl

/-- What is demanded for reading an operand does not depend on the device. -/
theorem readDemands_withDevice (s : State σ) (e : τ) (o : Operand8) :
    readDemands (s.withDevice e) o = readDemands s o := by
  rw [readDemands, readDemands, operandAddress_withDevice]
  rfl

/-- What is demanded for writing an operand does not depend on the device. -/
theorem writeDemands_withDevice (s : State σ) (e : τ) (v : Byte) (o : Operand8) :
    writeDemands (s.withDevice e) v o = writeDemands s v o := by
  rw [writeDemands, writeDemands, operandAddress_withDevice]
  rfl

end Interpreter

namespace Bridge.MemoryInterface.Agrees

open Interpreter

variable {i : MemoryInterface σ} {j : MemoryInterface τ} {related : σ → τ → Prop}
  (hagree : i.Agrees j related) (s : State σ) {e : τ} (he : related s.memory.device e)

include hagree he

/-! ### Accesses -/

/-- **A request** is served in the same way: the answers are the same, and the devices are related
again. -/
theorem afterRequest (request : Request) :
    (j.serve request s.cycles (s.memory.withDevice e)).1 =
        (i.serve request s.cycles s.memory).1 ∧
      ∃ e', (s.withDevice e).afterRequest
          (j.serve request s.cycles (s.memory.withDevice e)).2 =
            (s.afterRequest (i.serve request s.cycles s.memory).2).withDevice e' ∧
        related (i.serve request s.cycles s.memory).2.device e' := by
  have hmemory : (j.serve request s.cycles (s.memory.withDevice e)).2 =
      (i.serve request s.cycles s.memory).2.withDevice
        (j.serve request s.cycles (s.memory.withDevice e)).2.device :=
    congrArg (GuestMemory.mk · _) (hagree.window request s.cycles s.memory e he)
  refine ⟨hagree.result request s.cycles s.memory e he, _, ?_,
    hagree.device request s.cycles s.memory e he⟩
  rw [hmemory]
  rfl

/-- Reading a byte gets the same one on both machines. -/
theorem read8 (a : Address) :
    ∃ e', (s.withDevice e).read8 j a = ((s.read8 i a).1, (s.read8 i a).2.withDevice e') ∧
      related (s.read8 i a).2.memory.device e' := by
  obtain ⟨hresult, e', hstate, he'⟩ := hagree.afterRequest s he (.read8 a)
  rw [State.read8, State.read8]
  by_cases ha : a.toNat < 0xFE00
  · rw [if_pos ha, if_pos ha]
    exact ⟨e, rfl, he⟩
  · rw [if_neg ha, if_neg ha]
    have hbyte : (j.read8 a s.cycles (s.memory.withDevice e)).1 =
        (i.read8 a s.cycles s.memory).1 := by
      have hlow := congrArg (BitVec.setWidth 8) hresult
      simpa [serve] using hlow
    exact ⟨e', Prod.ext hbyte hstate, he'⟩

/-- Writing a byte leaves related devices behind, and the same window. -/
theorem write8 (a : Address) (v : Byte) :
    ∃ e', (s.withDevice e).write8 j a v = (s.write8 i a v).withDevice e' ∧
      related (s.write8 i a v).memory.device e' := by
  obtain ⟨-, e', hstate, he'⟩ := hagree.afterRequest s he (.write8 a v)
  rw [State.write8, State.write8]
  by_cases ha : 0x8000 ≤ a.toNat ∧ a.toNat < 0xFE00
  · rw [if_pos ha, if_pos ha]
    exact ⟨e, rfl, he⟩
  · rw [if_neg ha, if_neg ha]
    exact ⟨e', hstate, he'⟩

/-- Writing a word leaves related devices behind, and the same window. -/
theorem write16 (a : Address) (v : BitVec 16) :
    ∃ e', (s.withDevice e).write16 j a v = (s.write16 i a v).withDevice e' ∧
      related (s.write16 i a v).memory.device e' := by
  obtain ⟨-, e', hstate, he'⟩ := hagree.afterRequest s he (.write16 a v)
  rw [State.write16, State.write16]
  by_cases ha : 0x8000 ≤ a.toNat ∧ a.toNat < 0xFDFF
  · rw [if_pos ha, if_pos ha]
    exact ⟨e, rfl, he⟩
  · rw [if_neg ha, if_neg ha]
    exact ⟨e', hstate, he'⟩

/-- A change of the interrupt state leaves related devices behind. -/
theorem setInterrupts (enabled : Bool) :
    ∃ e', (s.withDevice e).setInterrupts j enabled = (s.setInterrupts i enabled).withDevice e' ∧
      related (s.setInterrupts i enabled).memory.device e' :=
  (hagree.afterRequest s he (.interruptMasterEnable enabled)).2

/-- A push leaves related devices behind, whether it goes to the window or to a handler. -/
theorem push (v : BitVec 16) :
    ∃ e', (s.withDevice e).push j v = (s.push i v).withDevice e' ∧
      related (s.push i v).memory.device e' := by
  obtain ⟨-, e', hstate, he'⟩ :=
    hagree.afterRequest { s with sp := s.sp - 2 } he (.write16 (s.sp - 2) v)
  rw [State.push, State.push]
  by_cases hsp : 0xFF80 ≤ s.sp.toNat
  · rw [if_pos hsp]
    exact ⟨e, if_pos hsp, he⟩
  · rw [if_neg hsp]
    exact ⟨e', (if_neg hsp).trans hstate, he'⟩

/-- A pop gets the same word on both machines. -/
theorem pop :
    ∃ e', (s.withDevice e).pop j = ((s.pop i).1, (s.pop i).2.withDevice e') ∧
      related (s.pop i).2.memory.device e' := by
  obtain ⟨hresult, e', hstate, he'⟩ :=
    hagree.afterRequest { s with sp := s.sp + 2 } he (.read16 s.sp)
  rw [State.pop, State.pop]
  by_cases hsp : 0xFF80 ≤ s.sp.toNat ∧ s.sp.toNat ≠ 0xFFFF
  · rw [if_pos hsp]
    exact ⟨e, if_pos hsp, he⟩
  · rw [if_neg hsp]
    exact ⟨e', (if_neg hsp).trans (Prod.ext hresult hstate), he'⟩

/-! ### Operands -/

/-- Reading an operand gets the same byte on both machines. -/
theorem readOperand (o : Operand8) :
    ∃ e', Interpreter.readOperand j (s.withDevice e) o =
        ((Interpreter.readOperand i s o).1, (Interpreter.readOperand i s o).2.withDevice e') ∧
      related (Interpreter.readOperand i s o).2.memory.device e' := by
  cases hmemory : o.isMemory with
  | false =>
    cases o with
    | register r => exact ⟨e, by cases r <;> rfl, he⟩
    | immediate v => exact ⟨e, rfl, he⟩
    | _ => cases hmemory
  | true =>
    obtain ⟨e', hread, he'⟩ := hagree.read8 s he (operandAddress s o)
    rw [readOperand_of_isMemory s hmemory, readOperand_of_isMemory _ hmemory,
      operandAddress_withDevice, hread]
    refine ⟨e', ?_, ?_⟩
    · cases o <;> rfl
    · cases o <;> exact he'

/-- Writing an operand does the same on both machines. -/
theorem writeOperand (v : Byte) (o : Operand8) :
    ∃ e', Interpreter.writeOperand j (s.withDevice e) v o =
        (Interpreter.writeOperand i s v o).withDevice e' ∧
      related (Interpreter.writeOperand i s v o).memory.device e' := by
  cases hmemory : o.isMemory with
  | false =>
    cases o with
    | register r => exact ⟨e, by cases r <;> rfl, by cases r <;> exact he⟩
    | immediate w => exact ⟨e, rfl, he⟩
    | _ => cases hmemory
  | true =>
    obtain ⟨e', hwrite, he'⟩ := hagree.write8 s he (operandAddress s o) v
    rw [writeOperand_of_isMemory s v hmemory, writeOperand_of_isMemory _ v hmemory,
      operandAddress_withDevice, hwrite]
    refine ⟨e', ?_, ?_⟩
    · cases o <;> rfl
    · cases o <;> exact he'

/-- Reading an operand and writing it back, with a change that does not touch memory, does the same
on both machines and asks the same of memory. -/
theorem modifyOperand (o : Operand8) {change : State σ → Byte → Byte × State σ}
    {change' : State τ → Byte → Byte × State τ}
    (hchange : ∀ t v (e : τ), change' (t.withDevice e) v =
      ((change t v).1, (change t v).2.withDevice e))
    (hmemory : ∀ t v, (change t v).2.memory = t.memory) :
    (∃ e', Interpreter.modifyOperand j (s.withDevice e) o change' =
        (Interpreter.modifyOperand i s o change).withDevice e' ∧
      related (Interpreter.modifyOperand i s o change).memory.device e') ∧
      modifyDemands j (s.withDevice e) o change' = modifyDemands i s o change := by
  obtain ⟨e', hread, he'⟩ := hagree.readOperand s he o
  rw [Interpreter.modifyOperand, Interpreter.modifyOperand, modifyDemands, modifyDemands, hread]
  simp only [hchange, readDemands_withDevice, writeDemands_withDevice]
  exact ⟨hagree.writeOperand _ (by rwa [hmemory]) _ o, trivial⟩

/-- Operations that change an operand in place do the same on both machines, by `modifyOperand`. -/
theorem of_changeOf (next : Address) {operation : Operation} {target : Operand8}
    {change : State σ → Byte → Byte × State σ} {change' : State τ → Byte → Byte × State τ}
    (h : changeOf operation = some (target, change))
    (h' : changeOf operation = some (target, change')) :
    (∃ e', Interpreter.perform j next operation (s.withDevice e) =
        ((Interpreter.perform i next operation s).1.withDevice e',
          (Interpreter.perform i next operation s).2) ∧
      related (Interpreter.perform i next operation s).1.memory.device e') ∧
      performDemands j next operation (s.withDevice e) = performDemands i next operation s := by
  have hchange : (∀ t v (e : τ), change' (t.withDevice e) v =
      ((change t v).1, (change t v).2.withDevice e)) ∧
        ∀ t v, (change t v).2.memory = t.memory := by
    cases operation with
    | increment | decrement | shift | reset | set =>
      cases h
      cases h'
      exact ⟨fun _ _ _ => rfl, fun _ _ => rfl⟩
    | _ => cases h
  obtain ⟨hperform, hdemands⟩ := perform_of_changeOf i next s h
  obtain ⟨hperform', hdemands'⟩ := perform_of_changeOf j next (s.withDevice e) h'
  obtain ⟨⟨e', hmodify, he'⟩, hsame⟩ := hagree.modifyOperand s he target hchange.1 hchange.2
  rw [hperform, hperform', hdemands, hdemands', hmodify]
  exact ⟨⟨e', rfl, he'⟩, hsame⟩

/-! ### Instructions -/

/-- **An operation** does the same on both machines. There is one case for each operation, made of
the accesses above. -/
theorem perform (next : Address) (operation : Operation) :
    ∃ e', Interpreter.perform j next operation (s.withDevice e) =
        ((Interpreter.perform i next operation s).1.withDevice e',
          (Interpreter.perform i next operation s).2) ∧
      related (Interpreter.perform i next operation s).1.memory.device e' := by
  cases operation with
  | di | ei =>
    obtain ⟨e', hset, he'⟩ := hagree.setInterrupts s he _
    exact ⟨e', congrArg (·, none) hset, he'⟩
  | load dst src =>
    obtain ⟨e', hread, he'⟩ := hagree.readOperand s he src
    rw [Interpreter.perform, Interpreter.perform, hread]
    obtain ⟨e'', hwrite, he''⟩ := hagree.writeOperand _ he' (Interpreter.readOperand i s src).1 dst
    exact ⟨e'', congrArg (·, none) hwrite, he''⟩
  | storeStackPointer a =>
    obtain ⟨e', hwrite, he'⟩ := hagree.write16 s he a s.sp
    exact ⟨e', congrArg (·, none) hwrite, he'⟩
  | alu op src | bit index src =>
    obtain ⟨e', hread, he'⟩ := hagree.readOperand s he src
    rw [Interpreter.perform, Interpreter.perform, hread]
    exact ⟨e', rfl, he'⟩
  | increment target | decrement target | shift op target | reset index target | set index target =>
    exact (hagree.of_changeOf s he next rfl rfl).1
  | jump condition a | jumpRelative condition offset =>
    -- whether a branch is taken does not depend on the device
    have hsame : taken (s.withDevice e) condition = taken s condition := rfl
    rw [Interpreter.perform, Interpreter.perform, hsame]
    cases taken s condition <;> exact ⟨e, rfl, he⟩
  | call condition a =>
    have hsame : taken (s.withDevice e) condition = taken s condition := rfl
    obtain ⟨e', hpush, he'⟩ :=
      hagree.push (s.addCycles (Operation.call condition a).cycles.branchTaken) he next
    rw [Interpreter.perform, Interpreter.perform, hsame]
    cases taken s condition with
    | true => exact ⟨e', congrArg (·, some (ExitReason.branch, a)) hpush, he'⟩
    | false => exact ⟨e, rfl, he⟩
  | ret condition =>
    have hsame : taken (s.withDevice e) condition = taken s condition := rfl
    obtain ⟨e', hpop, he'⟩ :=
      hagree.pop (s.addCycles (Operation.ret condition).cycles.branchTaken) he
    rw [Interpreter.perform, Interpreter.perform, hsame]
    cases taken s condition with
    | true => exact ⟨e', congrArg (fun r => (r.2, some (ExitReason.branch, r.1))) hpop, he'⟩
    | false => exact ⟨e, rfl, he⟩
  | retInterrupt =>
    obtain ⟨e', hset, he'⟩ := hagree.setInterrupts s he true
    obtain ⟨e'', hpop, he''⟩ := hagree.pop _ he'
    rw [Interpreter.perform, Interpreter.perform, hset, hpop]
    exact ⟨e'', rfl, he''⟩
  | restart vector =>
    obtain ⟨e', hpush, he'⟩ := hagree.push s he next
    exact ⟨e', congrArg (·, _) hpush, he'⟩
  | push pair =>
    obtain ⟨e', hpush, he'⟩ := hagree.push s he (s.getPair pair)
    exact ⟨e', by cases pair <;> exact congrArg (·, none) hpush, he'⟩
  | pop pair =>
    obtain ⟨e', hpop, he'⟩ := hagree.pop s he
    rw [Interpreter.perform, Interpreter.perform, hpop]
    cases pair <;> exact ⟨e', rfl, he'⟩
  | loadImmediate16 pair | increment16 pair | decrement16 pair | addHl pair =>
    cases pair <;> exact ⟨e, rfl, he⟩
  | _ => exact ⟨e, rfl, he⟩

/-- An operation **asks the same** of memory on both machines. -/
theorem performDemands (next : Address) (operation : Operation) :
    Interpreter.performDemands j next operation (s.withDevice e) =
      Interpreter.performDemands i next operation s := by
  cases operation with
  | load dst src =>
    obtain ⟨e', hread, -⟩ := hagree.readOperand s he src
    rw [performDemands_load, performDemands_load, hread, readDemands_withDevice,
      writeDemands_withDevice]
  | increment target | decrement target | shift op target | reset index target | set index target =>
    exact (hagree.of_changeOf s he next rfl rfl).2
  | alu op src | bit index src => exact readDemands_withDevice s e src
  | push pair => cases pair <;> rfl
  | _ => rfl

/-- **An instruction** does the same on both machines, and asks the same of memory. -/
theorem step (p : Placed) :
    (∃ e', Interpreter.step j p (s.withDevice e) =
        ((Interpreter.step i p s).1.withDevice e', (Interpreter.step i p s).2) ∧
      related (Interpreter.step i p s).1.memory.device e') ∧
      stepDemands j p (s.withDevice e) = stepDemands i p s :=
  ⟨hagree.perform (s.addCycles p.instruction.cycles.base) he p.next p.instruction.operation,
    hagree.performDemands (s.addCycles p.instruction.cycles.base) he p.next
      p.instruction.operation⟩

/-- **A block** does the same on both machines. The induction is on its instructions, after each of
which the devices are related again. -/
theorem runBlock (fallThrough : Address) (ps : List Placed) :
    (∃ e', Interpreter.runBlock j fallThrough ps (s.withDevice e) =
        ((Interpreter.runBlock i fallThrough ps s).1.withDevice e',
          (Interpreter.runBlock i fallThrough ps s).2) ∧
      related (Interpreter.runBlock i fallThrough ps s).1.memory.device e') ∧
      blockDemands j ps (s.withDevice e) = blockDemands i ps s := by
  induction ps generalizing s e with
  | nil => exact ⟨⟨e, rfl, he⟩, rfl⟩
  | cons p ps ih =>
    obtain ⟨⟨e', hstep', he'⟩, hdemands⟩ := hagree.step s he p
    rcases hstep : Interpreter.step i p s with ⟨t, _ | exit⟩
    · rw [hstep] at hstep' he'
      obtain ⟨hrest, hrestDemands⟩ := ih t he'
      rw [runBlock_through hstep, runBlock_through hstep', blockDemands_through hstep,
        blockDemands_through hstep', hdemands, hrestDemands]
      exact ⟨hrest, rfl⟩
    · rw [hstep] at hstep' he'
      rw [runBlock_left hstep, runBlock_left hstep', blockDemands_left hstep,
        blockDemands_left hstep', hdemands]
      exact ⟨⟨e', rfl, he'⟩, rfl⟩

end Bridge.MemoryInterface.Agrees

end Dynarec
