import Dynarec.Guest.Operand

/-!
# Guest operations

A decoded guest instruction is an `Operation` with its operands and the number of bytes it was
decoded from. Two properties of an operation matter to a block of code: its **cycles**, and whether
it **ends the block** because control can never fall through to the instruction after it.
-/

namespace Dynarec.Guest

/-- An operation with its operands. -/
inductive Operation
  | nop
  | stop
  | halt
  | di
  | ei
  | daa
  | cpl
  | scf
  | ccf
  /-- `LD dst, src` -/
  | load (dst src : Operand8)
  /-- `LD rr, nn` -/
  | loadImmediate16 (pair : Reg16) (value : BitVec 16)
  /-- `LD (nn), SP` -/
  | storeStackPointer (address : Address)
  /-- `LD SP, HL` -/
  | loadStackPointerFromHl
  /-- `LD HL, SP+e` -/
  | loadHlFromStackOffset (offset : Byte)
  /-- `ADD SP, e` -/
  | addStackPointer (offset : Byte)
  | alu (op : AluOp) (src : Operand8)
  | increment (target : Operand8)
  | decrement (target : Operand8)
  | increment16 (pair : Reg16)
  | decrement16 (pair : Reg16)
  /-- `ADD HL, rr` -/
  | addHl (pair : Reg16)
  /-- `RLCA`, `RRCA`, `RLA` and `RRA` -/
  | rotateAccumulator (op : ShiftOp)
  | shift (op : ShiftOp) (target : Operand8)
  | bit (index : BitVec 3) (target : Operand8)
  | reset (index : BitVec 3) (target : Operand8)
  | set (index : BitVec 3) (target : Operand8)
  | jump (condition : Option Condition) (target : Address)
  | jumpHl
  | jumpRelative (condition : Option Condition) (offset : Byte)
  | call (condition : Option Condition) (target : Address)
  | ret (condition : Option Condition)
  | retInterrupt
  | restart (vector : Byte)
  | push (pair : StackPair)
  | pop (pair : StackPair)
  deriving DecidableEq

/-- **Clock cycles** of an instruction. A conditional branch takes `branchTaken` cycles more when
its condition holds. -/
structure Cycles where
  base : Nat
  branchTaken : Nat
  deriving DecidableEq

namespace Operation

/-- The clock cycles of an operation. -/
def cycles : Operation → Cycles
  | nop | stop | halt | di | ei | daa | cpl | scf | ccf => ⟨4, 0⟩
  | rotateAccumulator _ => ⟨4, 0⟩
  | jumpHl => ⟨4, 0⟩
  | load dst src => ⟨4 + dst.accessCycles + src.accessCycles, 0⟩
  | loadImmediate16 _ _ => ⟨12, 0⟩
  | storeStackPointer _ => ⟨20, 0⟩
  | loadStackPointerFromHl => ⟨8, 0⟩
  | loadHlFromStackOffset _ => ⟨12, 0⟩
  | addStackPointer _ => ⟨16, 0⟩
  | alu _ src => ⟨4 + src.accessCycles, 0⟩
  | increment target | decrement target => ⟨4 + 2 * target.accessCycles, 0⟩
  | increment16 _ | decrement16 _ | addHl _ => ⟨8, 0⟩
  | shift _ target | reset _ target | set _ target => ⟨8 + 2 * target.accessCycles, 0⟩
  | bit _ target => ⟨8 + target.accessCycles, 0⟩
  | jump none _ => ⟨16, 0⟩
  | jump (some _) _ => ⟨12, 4⟩
  | jumpRelative none _ => ⟨12, 0⟩
  | jumpRelative (some _) _ => ⟨8, 4⟩
  | call none _ => ⟨24, 0⟩
  | call (some _) _ => ⟨12, 12⟩
  | ret none => ⟨16, 0⟩
  | ret (some _) => ⟨8, 12⟩
  | retInterrupt => ⟨16, 0⟩
  | restart _ => ⟨16, 0⟩
  | push _ => ⟨16, 0⟩
  | pop _ => ⟨12, 0⟩

/-- Whether execution can never fall through to the next instruction. -/
def endsBlock : Operation → Bool
  | stop | halt | jumpHl | retInterrupt | restart _ => true
  | jump none _ | jumpRelative none _ | call none _ | ret none => true
  | _ => false

end Operation

/-- An **instruction**: an operation and the number of bytes that encode it. -/
structure Instruction where
  operation : Operation
  size : Nat
  deriving DecidableEq

/-- The clock cycles of an instruction. -/
def Instruction.cycles (i : Instruction) : Cycles := i.operation.cycles

end Dynarec.Guest
