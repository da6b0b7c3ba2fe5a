import Dynarec.Fault
import Dynarec.Host.Register

/-!
# Host instructions

The subset of the host's 64 bit instruction set that generated code is made of, as plain data. An
`Instruction` says what is to be encoded; `Instruction.fault?` tells which combinations have no
encoding, and `Host/Encode` gives the bytes of the others.
-/

namespace Dynarec.Host

/-- A **memory operand** `[base + index + displacement]`. -/
structure Memory where
  base : Register
  index : Option Register
  displacement : BitVec 32
  deriving DecidableEq

namespace Memory

/-- The memory that a register points to. -/
def ofBase (base : Register) : Memory := ⟨base, none, 0⟩

/-- A memory operand moved by a constant. -/
def offset (m : Memory) (displacement : BitVec 32) : Memory :=
  { m with displacement := displacement }

/-- A memory operand moved by an index register. -/
def indexed (m : Memory) (index : Register) : Memory := { m with index := some index }

end Memory

/-- The second operand of an operation on a register. -/
inductive Source
  | register (r : Register)
  /-- A constant, of which as many low bits count as the operation is wide. -/
  | immediate (value : HostWord)
  deriving DecidableEq

/-- An operand that is a register or lies in memory. -/
inductive Place
  | register (r : Register)
  | memory (m : Memory)
  deriving DecidableEq

/-- A two operand operation of the arithmetic group. -/
inductive AluOp
  | add | or | adc | sbb | and | sub | xor | cmp
  deriving DecidableEq

/-- The number of an operation inside the arithmetic group. -/
def AluOp.digit : AluOp → BitVec 3
  | add => 0
  | or => 1
  | adc => 2
  | sbb => 3
  | and => 4
  | sub => 5
  | xor => 6
  | cmp => 7

/-- The operation with a given number inside the arithmetic group. -/
def AluOp.ofDigit (d : BitVec 3) : AluOp :=
  match d.toNat with
  | 0 => add
  | 1 => or
  | 2 => adc
  | 3 => sbb
  | 4 => and
  | 5 => sub
  | 6 => xor
  | _ => cmp

@[simp]
theorem AluOp.ofDigit_digit (op : AluOp) : ofDigit op.digit = op := by cases op <;> rfl

/-- An operation of the shift group. -/
inductive ShiftOp
  | rol | ror | rcl | rcr | shl | shr | sar
  deriving DecidableEq

/-- The number of an operation inside the shift group. -/
def ShiftOp.digit : ShiftOp → BitVec 3
  | rol => 0
  | ror => 1
  | rcl => 2
  | rcr => 3
  | shl => 4
  | shr => 5
  | sar => 7

/-- The operation with a given number inside the shift group. -/
def ShiftOp.ofDigit? (d : BitVec 3) : Option ShiftOp :=
  match d.toNat with
  | 0 => some rol
  | 1 => some ror
  | 2 => some rcl
  | 3 => some rcr
  | 4 => some shl
  | 5 => some shr
  | 7 => some sar
  | _ => none

@[simp]
theorem ShiftOp.ofDigit?_digit (op : ShiftOp) : ofDigit? op.digit = some op := by cases op <;> rfl

/-- A host instruction. -/
inductive Instruction
  | nop
  | ret
  /-- Pushes the host flags. -/
  | pushFlags
  /-- Replaces the host flags by the value on top of the stack. -/
  | popFlags
  | push (src : Register)
  | pop (dst : Register)
  | mov (size : Size) (dst : Register) (src : Source)
  /-- Reads memory into a register. -/
  | load (size : Size) (dst : Register) (src : Memory)
  /-- Writes a register to memory. -/
  | store (size : Size) (dst : Memory) (src : Register)
  /-- Computes the address of a memory operand without touching memory or flags. -/
  | lea (size : Size) (dst : Register) (src : Memory)
  /-- Moves a byte, or a word if `wide`, into a register and clears the bits above it. -/
  | movzx (wide : Bool) (dst : Register) (src : Place)
  | alu (op : AluOp) (size : Size) (dst : Register) (src : Source)
  /-- A bitwise and that only sets the flags. -/
  | test (size : Size) (dst : Register) (src : Source)
  /-- Shifts or rotates a register by a constant amount. -/
  | shift (op : ShiftOp) (size : Size) (dst : Register) (amount : Byte)
  /-- Copies one of the low 32 bits of a register into the carry flag. -/
  | bitTest (src : Register) (bit : Byte)
  /-- Branches by a displacement from the end of the instruction, if the condition holds. -/
  | branch (condition : Option Condition) (width : BranchWidth) (displacement : BitVec 32)
  /-- Calls the code whose address a register or memory holds. -/
  | call (target : Option Place)
  deriving DecidableEq

namespace Instruction

/-- The memory operand of an instruction. -/
def memory? : Instruction → Option Memory
  | load _ _ m => some m
  | store _ m _ => some m
  | lea _ _ m => some m
  | movzx _ _ (.memory m) => some m
  | call (some (.memory m)) => some m
  | _ => none

/-- Why an instruction cannot be encoded, if it cannot. An unencodable memory operand counts before
anything else that is wrong with the instruction. -/
def fault? (i : Instruction) : Option Fault :=
  if (i.memory?.bind (·.index)) = some .rsp then some .stackPointerIndex
  else
    match i with
    | lea .byte _ _ => some .narrowAddress
    | lea .word _ _ => some .narrowAddress
    | shift _ _ _ 0 => some .zeroShift
    | bitTest _ bit => if bit.toNat < 32 then none else some .bitOutOfRange
    | branch _ .short displacement =>
      if (displacement.setWidth 8).signExtend 32 = displacement then none
      else some .shortDisplacement
    | call none => some .missingCallTarget
    | _ => none

/-- Whether an instruction has an encoding. -/
def IsEncodable (i : Instruction) : Prop := i.fault? = none

instance (i : Instruction) : Decidable i.IsEncodable := inferInstanceAs (Decidable (_ = _))

end Instruction

end Dynarec.Host
