import Dynarec.Proofs.Interpreter.CarryChain
import Dynarec.Proofs.Interpreter.Walks

/-!
# Instructions between rounds

The instructions of rounds may stand apart: between them others may be inserted that fall through
and spare the carry chain (`Padded`). Among these are the **fillers** (`Filler`), whatever the flags
are: what they change is B, C and Z. Such code does what the rounds do, and it is a walk whatever
the limit for the instructions of a block (`Padded.walk`).
-/

namespace Dynarec.Interpreter

open Bridge (MemoryInterface)
open Guest (AluOp ExitReason Operand8 Operation Placed Reg8 Window)

variable {σ : Type} {i : MemoryInterface σ}

/-- The carry chain of a state. -/
def State.chain (s : State σ) : Chain := ⟨s.a, s.de, s.hl, s.carry, s.memory.window⟩

/-! ### The operations of rounds -/

/-- An operand in **plain memory** is read from the window, and no handler is asked. -/
theorem readOperand_of_lt {s : State σ} {o : Operand8} (hmemory : o.isMemory = true)
    (h : (operandAddress s o).toNat < 0xFE00) :
    readOperand i s o = (s.memory.window.get (operandAddress s o), afterAccess s o) := by
  rw [readOperand_of_isMemory s hmemory, State.read8, if_pos h]

/-- An operand in **RAM** is written to the window, and no handler is told. -/
theorem writeOperand_of_lt {s : State σ} {o : Operand8} (hmemory : o.isMemory = true)
    (hram : 0x8000 ≤ (operandAddress s o).toNat) (h : (operandAddress s o).toNat < 0xFE00)
    (v : Byte) : writeOperand i s v o =
      afterAccess (s.setWindow (s.memory.window.set (operandAddress s o) v)) o := by
  rw [writeOperand_of_isMemory s v hmemory, State.write8, if_pos ⟨hram, h⟩]

theorem chain_accumulate {op : AluOp} (hop : op ≠ .cp) (s : State σ) (v : Byte) :
    (accumulate s op v).chain =
      ⟨(alu op s.a v s.carry).value, s.de, s.hl, (alu op s.a v s.carry).carry,
        s.memory.window⟩ := by
  simp only [accumulate, State.chain, if_neg hop]

/-- **An operation of a round** falls through and does to the chain what it says. There is one case
for each of them. -/
theorem chain_perform {code : Address → Prop} {operation : Operation} {s : State σ}
    (h : s.chain.Allows code operation) (next : Address) :
    (perform i next operation s).2 = none ∧
      (perform i next operation s).1.chain = s.chain.after operation := by
  unfold Chain.Allows at h
  split at h
  · have hde : (operandAddress s (.indirect .de)).toNat < 0xFE00 := h
    rw [perform, readOperand_of_lt rfl hde]
    exact ⟨rfl, rfl⟩
  · next op =>
    obtain ⟨hop, hhl⟩ := h
    have hhl' : (operandAddress s .indirectHl).toNat < 0xFE00 := hhl
    rw [perform, readOperand_of_lt rfl hhl']
    exact ⟨rfl, chain_accumulate hop s _⟩
  · obtain ⟨hram, hhl, -⟩ := h
    have hram' : 0x8000 ≤ (operandAddress s .indirectHlIncrement).toNat := hram
    have hstore := writeOperand_of_lt (i := i) rfl hram' hhl s.a
    have hperform : perform i next (.load .indirectHlIncrement (.register .a)) s =
        (writeOperand i s s.a .indirectHlIncrement, none) := rfl
    rw [hperform, hstore]
    exact ⟨rfl, rfl⟩
  · exact ⟨rfl, rfl⟩
  · exact h.elim

/-- What an allowed operation does to the window **leaves the code** alone. -/
theorem Chain.Allows.agreesOn {code : Address → Prop} {c : Chain} {operation : Operation}
    (h : c.Allows code operation) : (c.after operation).window.AgreesOn code c.window := by
  unfold Chain.Allows at h
  split at h
  · exact fun _ _ => rfl
  · exact fun _ _ => rfl
  · intro a ha
    obtain ⟨-, -, hcode⟩ := h
    have hne : a ≠ c.hl := by
      rintro rfl
      exact hcode ha
    rw [Chain.after, Window.get_set, if_neg hne]
  · exact fun _ _ => rfl
  · exact h.elim

/-! ### Fillers -/

/-- The registers that the carry chain does not use. -/
def Spare (r : Reg8) : Prop := r = .b ∨ r = .c

/-- The **fillers** in a state: what changes nothing but B, C and Z, and the branches that are not
taken. -/
inductive Filler (s : State σ) : Operation → Prop
  | nop : Filler s .nop
  | increment {r : Reg8} : Spare r → Filler s (.increment (.register r))
  | decrement {r : Reg8} : Spare r → Filler s (.decrement (.register r))
  | increment16 : Filler s (.increment16 .bc)
  | decrement16 : Filler s (.decrement16 .bc)
  | loadRegister {r : Reg8} (r' : Reg8) : Spare r → Filler s (.load (.register r) (.register r'))
  | loadImmediate {r : Reg8} (v : Byte) : Spare r → Filler s (.load (.register r) (.immediate v))
  | loadMemory {r : Reg8} : Spare r → s.hl.toNat < 0xFE00 →
      Filler s (.load (.register r) .indirectHl)
  | loadImmediate16 (v : BitVec 16) : Filler s (.loadImmediate16 .bc v)
  | bit {r : Reg8} (index : BitVec 3) : Spare r → Filler s (.bit index (.register r))
  | reset {r : Reg8} (index : BitVec 3) : Spare r → Filler s (.reset index (.register r))
  | set {r : Reg8} (index : BitVec 3) : Spare r → Filler s (.set index (.register r))
  | jump {condition : Guest.Condition} (a : Address) : condition.holds s.zero s.carry = false →
      Filler s (.jump (some condition) a)
  | jumpRelative {condition : Guest.Condition} (offset : Byte) :
      condition.holds s.zero s.carry = false → Filler s (.jumpRelative (some condition) offset)
  | call {condition : Guest.Condition} (a : Address) : condition.holds s.zero s.carry = false →
      Filler s (.call (some condition) a)
  | ret {condition : Guest.Condition} : condition.holds s.zero s.carry = false →
      Filler s (.ret (some condition))

/-- Whether an instruction **spares** the chain in a state. -/
def Spares (i : MemoryInterface σ) (p : Placed) (s : State σ) : Prop :=
  (step i p s).1.chain = s.chain

/-- **Fillers** fall through and spare the chain: each of them changes registers that the chain does
not use, or nothing. -/
theorem spares_of_filler {p : Placed} {s : State σ} (h : Filler s p.instruction.operation) :
    (step i p s).2 = none ∧ Spares i p s := by
  rw [Spares, step]
  generalize p.instruction.operation = operation at h
  cases h with
  | nop | increment16 | decrement16 | loadImmediate16 => exact ⟨rfl, rfl⟩
  | increment hr | decrement hr | loadRegister _ hr | loadImmediate _ hr | bit _ hr | reset _ hr
  | set _ hr => rcases hr with rfl | rfl <;> exact ⟨rfl, rfl⟩
  | loadMemory hr hhl =>
    let charged := s.addCycles p.instruction.cycles.base
    have hhl' : (operandAddress charged .indirectHl).toNat < 0xFE00 := hhl
    rw [perform, readOperand_of_lt rfl hhl']
    rcases hr with rfl | rfl <;> exact ⟨rfl, rfl⟩
  | @jump condition _ hnot | @jumpRelative condition _ hnot | @call condition _ hnot
  | @ret condition hnot =>
    let charged := s.addCycles p.instruction.cycles.base
    have htaken : taken charged (some condition) = false := hnot
    rw [perform, htaken]
    exact ⟨rfl, rfl⟩

/-! ### Padded code -/

/-- **Padded code** carries out some operations one after another, from an address and a state to
another address and state. Between them there may be instructions that fall through and spare the
chain. -/
inductive Padded (i : MemoryInterface σ) (w : Window) (code : Address → Prop) :
    List Operation → Address → State σ → List (Placed × State σ) → Address → State σ → Prop
  | nil (a : Address) (s : State σ) : Padded i w code [] a s [] a s
  | operation {p : Placed} {operations : List Operation} {s u : State σ}
      {executed : List (Placed × State σ)} {b : Address} :
      p.LiesIn w code → p.instruction.operation.endsBlock = false →
        Padded i w code operations p.next (step i p s).1 executed b u →
        Padded i w code (p.instruction.operation :: operations) p.address s ((p, s) :: executed) b u
  | filler {p : Placed} {operations : List Operation} {s u : State σ}
      {executed : List (Placed × State σ)} {b : Address} :
      p.LiesIn w code → (step i p s).2 = none → Spares i p s →
        Padded i w code operations p.next (step i p s).1 executed b u →
        Padded i w code operations p.address s ((p, s) :: executed) b u

namespace Padded

variable {w : Window} {code : Address → Prop} {operations : List Operation} {a b : Address}
  {s u : State σ} {executed : List (Placed × State σ)}

theorem endsBlock_of_through {p : Placed} (h : (step i p s).2 = none) :
    p.instruction.operation.endsBlock = false := by
  rw [← Bool.not_eq_true]
  intro hends
  exact step_ne_through hends s (step i p s).1 (Prod.ext rfl h)

/-- A block can be read at **padded code**, if one can be read behind it. The induction is on the
instructions. -/
theorem hasBlock (h : Padded i w code operations a s executed b u)
    (hrest : ∀ budget, w.HasBlock budget code b) (budget : Nat) : w.HasBlock budget code a := by
  induction h generalizing budget with
  | nil => exact hrest budget
  | operation hlies hends _ ih => exact hlies.hasBlock_of_next hends (ih hrest) budget
  | filler hlies hthrough _ _ ih =>
    exact hlies.hasBlock_of_next (endsBlock_of_through hthrough) (ih hrest) budget

/-- A walk that **falls through** its first instruction. -/
theorem walk_of_through {p : Placed} {budget : Nat} {rest : List (Placed × State σ)}
    {out : State σ × ExitReason × Address} (hlies : p.LiesIn w code)
    (hthrough : (step i p s).2 = none) (hblock : ∀ budget, w.HasBlock budget code p.next)
    (hagrees : (step i p s).1.memory.window.AgreesOn code w)
    (hrest : Walk i budget w code p.next (step i p s).1 rest out) :
    Walk i budget w code p.address s ((p, s) :: rest) out := by
  have hfirst := hlies.hasBlock_of_next (endsBlock_of_through hthrough) hblock budget
  have hstep : step i p s = ((step i p s).1, none) := Prod.ext rfl hthrough
  exact .more ⟨hlies.entry, hfirst⟩ hstep rfl hagrees hrest

/-- **Padded code does what its operations do**, and it is the start of a walk if it does not change
the code. The induction is on the padded code, whose instructions are operations or fillers. -/
theorem walk (h : Padded i w code operations a s executed b u)
    (hblock : ∀ budget, w.HasBlock budget code b) (hallows : s.chain.AllowsAll code operations)
    (hagrees : s.memory.window.AgreesOn code w) {budget : Nat} {rest : List (Placed × State σ)}
    {out : State σ × ExitReason × Address}
    (hrest : u.memory.window.AgreesOn code w → Walk i budget w code b u rest out) :
    u.chain = s.chain.run operations ∧ Walk i budget w code a s (executed ++ rest) out := by
  induction h with
  | nil => exact ⟨rfl, hrest hagrees⟩
  | @operation p operations s u executed b hlies _ hnext ih =>
    obtain ⟨hallow, hallows⟩ := hallows
    obtain ⟨hthrough, hstep⟩ : (step i p s).2 = none ∧
        (step i p s).1.chain = s.chain.after p.instruction.operation :=
      chain_perform (s := s.addCycles p.instruction.cycles.base) hallow p.next
    have hagrees' : (step i p s).1.chain.window.AgreesOn code w := by
      rw [hstep]
      exact hallow.agreesOn.trans hagrees
    obtain ⟨hchain, hwalk⟩ := ih hblock (hstep ▸ hallows) hagrees' hrest
    refine ⟨?_, walk_of_through hlies hthrough (hnext.hasBlock hblock) hagrees' hwalk⟩
    rw [hchain, hstep]
    rfl
  | @filler p operations s u executed b hlies hthrough hspares hnext ih =>
    have hstep : (step i p s).1.chain = s.chain := hspares
    have hagrees' : (step i p s).1.chain.window.AgreesOn code w := by
      rw [hstep]
      exact hagrees
    obtain ⟨hchain, hwalk⟩ := ih hblock (hstep ▸ hallows) hagrees' hrest
    refine ⟨?_, walk_of_through hlies hthrough (hnext.hasBlock hblock) hagrees' hwalk⟩
    rw [hchain, hstep]

end Padded

end Dynarec.Interpreter
