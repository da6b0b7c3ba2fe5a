import Dynarec.Guest.Block
import Dynarec.Guest.Exit
import Dynarec.Interpreter.Arithmetic
import Dynarec.Interpreter.State

/-!
# Interpretation of guest instructions

`step` is the effect of one guest instruction, said directly in terms of the guest processor: the
documented operation on its registers, flags and memory. `runBlock` carries out the instructions of
a block until one leaves it.
-/

namespace Dynarec.Interpreter

open Bridge (MemoryInterface)
open Guest (Condition ExitReason Operand8 Operation Placed)

variable {σ : Type}

/-! ### Operands -/

/-- The guest address of a memory operand. -/
def operandAddress (s : State σ) : Operand8 → Address
  | .indirectHl | .indirectHlIncrement | .indirectHlDecrement => s.hl
  | .indirect pair => s.get16 pair
  | .absolute a => a
  | .highAbsolute offset => 0xFF#8 ++ offset
  | .highC => 0xFF#8 ++ s.get8 .c
  | .register _ | .immediate _ => 0

/-- The state once an operand has been accessed. -/
def afterAccess (s : State σ) : Operand8 → State σ
  | .indirectHlIncrement => { s with hl := s.hl + 1 }
  | .indirectHlDecrement => { s with hl := s.hl - 1 }
  | _ => s

/-- Reads an operand. -/
def readOperand (i : MemoryInterface σ) (s : State σ) : Operand8 → Byte × State σ
  | .register r => (s.get8 r, s)
  | .immediate v => (v, s)
  | o =>
    let (v, s) := s.read8 i (operandAddress s o)
    (v, afterAccess s o)

/-- Writes an operand. A constant cannot be written. -/
def writeOperand (i : MemoryInterface σ) (s : State σ) (v : Byte) : Operand8 → State σ
  | .register r => s.set8 r v
  | .immediate _ => s
  | o => afterAccess (s.write8 i (operandAddress s o) v) o

/-- Reads an operand, changes it and writes it back. -/
def modifyOperand (i : MemoryInterface σ) (s : State σ) (o : Operand8)
    (change : State σ → Byte → Byte × State σ) : State σ :=
  let (v, s) := readOperand i s o
  let (v, s) := change s v
  writeOperand i s v o

/-! ### Instructions -/

/-- The state with both flags set anew. -/
def setFlags (s : State σ) (zero carry : Bool) : State σ := { s with zero, carry }

/-- The state after an accumulator operation. -/
def accumulate (s : State σ) (op : Guest.AluOp) (v : Byte) : State σ :=
  let r := alu op s.a v s.carry
  { s with a := if op = .cp then s.a else r.value, zero := r.zero, carry := r.carry }

/-- SP moved by a signed offset, with the carry out of the low bytes; Z is cleared. -/
def offsetStackPointer (s : State σ) (offset : Byte) : BitVec 16 × State σ :=
  (s.sp + offset.signExtend 16,
    setFlags s false (Flagged.sum (s.sp.extractLsb' 0 8) offset false).carry)

/-- Whether a branch is taken. -/
def taken (s : State σ) (condition : Option Condition) : Bool :=
  (condition.map (Condition.holds s.zero s.carry)).getD true

/-- Where an instruction leads: `none` to the next one, otherwise out of the block. -/
abbrev Exit := Option (ExitReason × Address)

/-- The effect of an operation whose base cycles have been counted. `next` is the address after
the instruction. -/
def perform (i : MemoryInterface σ) (next : Address) (operation : Operation) (s : State σ) :
    State σ × Exit :=
  let extra := operation.cycles.branchTaken
  match operation with
  | .nop => (s, none)
  | .stop => (s, some (.stop, next))
  | .halt => (s, some (.halt, next))
  | .di => (s.setInterrupts i false, none)
  | .ei => (s.setInterrupts i true, none)
  | .daa => (s, none)
  | .cpl => ({ s with a := ~~~s.a }, none)
  | .scf => ({ s with carry := true }, none)
  | .ccf => ({ s with carry := !s.carry }, none)
  | .load dst src =>
    let (v, s) := readOperand i s src
    (writeOperand i s v dst, none)
  | .loadImmediate16 pair v => (s.set16 pair v, none)
  | .storeStackPointer a => (s.write16 i a s.sp, none)
  | .loadStackPointerFromHl => ({ s with sp := s.hl }, none)
  | .loadHlFromStackOffset offset =>
    let (v, s) := offsetStackPointer s offset
    ({ s with hl := v }, none)
  | .addStackPointer offset =>
    let (v, s) := offsetStackPointer s offset
    ({ s with sp := v }, none)
  | .alu op src =>
    let (v, s) := readOperand i s src
    (accumulate s op v, none)
  | .increment target =>
    (modifyOperand i s target fun s v => (v + 1, { s with zero := decide (v + 1 = 0) }), none)
  | .decrement target =>
    (modifyOperand i s target fun s v => (v - 1, { s with zero := decide (v - 1 = 0) }), none)
  | .increment16 pair => (s.set16 pair (s.get16 pair + 1), none)
  | .decrement16 pair => (s.set16 pair (s.get16 pair - 1), none)
  | .addHl pair =>
    let n := s.hl.toNat + (s.get16 pair).toNat
    ({ s with hl := BitVec.ofNat 16 n, carry := decide (0x10000 ≤ n) }, none)
  | .rotateAccumulator op =>
    let r := shift op s.a s.carry
    ({ s with a := r.value, zero := false, carry := r.carry }, none)
  | .shift op target =>
    (modifyOperand i s target fun s v =>
      let r := shift op v s.carry
      (r.value, setFlags s r.zero r.carry), none)
  | .bit index target =>
    let (v, s) := readOperand i s target
    ({ s with zero := !v.getLsbD index.toNat }, none)
  | .reset index target =>
    (modifyOperand i s target fun s v => (v &&& ~~~((1 : Byte) <<< index), s), none)
  | .set index target =>
    (modifyOperand i s target fun s v => (v ||| (1 : Byte) <<< index, s), none)
  | .jump condition a =>
    if taken s condition then (s.addCycles extra, some (.branch, a)) else (s, none)
  | .jumpHl => (s, some (.branch, s.hl))
  | .jumpRelative condition offset =>
    if taken s condition then (s.addCycles extra, some (.branch, next + offset.signExtend 16))
    else (s, none)
  | .call condition a =>
    if taken s condition then ((s.addCycles extra).push i next, some (.branch, a)) else (s, none)
  | .ret condition =>
    if taken s condition then
      let (a, s) := (s.addCycles extra).pop i
      (s, some (.branch, a))
    else (s, none)
  | .retInterrupt =>
    let (a, s) := (s.setInterrupts i true).pop i
    (s, some (.branch, a))
  | .restart vector => (s.push i next, some (.branch, vector.setWidth 16))
  | .push pair => (s.push i (s.getPair pair), none)
  | .pop pair =>
    let (v, s) := s.pop i
    (s.setPair pair v, none)

/-- The effect of an **instruction**. -/
def step (i : MemoryInterface σ) (p : Placed) (s : State σ) : State σ × Exit :=
  perform i p.next p.instruction.operation (s.addCycles p.instruction.cycles.base)

/-- The effect of the instructions of a **block**, up to the first one that leaves it. `fallThrough`
is the address after the block. -/
def runBlock (i : MemoryInterface σ) (fallThrough : Address) :
    List Placed → State σ → State σ × ExitReason × Address
  | [], s => (s, .branch, fallThrough)
  | p :: ps, s =>
    match step i p s with
    | (s, some exit) => (s, exit)
    | (s, none) => runBlock i fallThrough ps s

end Dynarec.Interpreter
