import Dynarec.Word

/-!
# Operands of guest instructions

The registers, register pairs, conditions and 8 bit operands that a guest instruction can name, and
the two families of operations that its opcode tables are built from. Each family comes with
`ofIndex`, which reads the field of two or three bits that selects a member inside an opcode.
-/

namespace Dynarec.Guest

/-- An **8 bit register**. F is not one: no instruction names it alone. -/
inductive Reg8
  | a | b | c | d | e | h | l
  deriving DecidableEq

/-- A **register pair** as used by loads and arithmetic. -/
inductive Reg16
  | bc | de | hl | sp
  deriving DecidableEq

/-- The register pair selected by a two bit field. -/
def Reg16.ofIndex (field : BitVec 2) : Reg16 :=
  match field.toNat with
  | 0 => .bc
  | 1 => .de
  | 2 => .hl
  | _ => .sp

/-- A register pair that can be pushed and popped: AF takes the place of SP. -/
inductive StackPair
  | bc | de | hl | af
  deriving DecidableEq

/-- The stack pair selected by a two bit field. -/
def StackPair.ofIndex (field : BitVec 2) : StackPair :=
  match field.toNat with
  | 0 => .bc
  | 1 => .de
  | 2 => .hl
  | _ => .af

/-- A **branch condition** on the guest's Z or C flag. -/
inductive Condition
  | notZero | zero | notCarry | carry
  deriving DecidableEq

/-- The condition selected by a two bit field. -/
def Condition.ofIndex (field : BitVec 2) : Condition :=
  match field.toNat with
  | 0 => .notZero
  | 1 => .zero
  | 2 => .notCarry
  | _ => .carry

/-- Whether a condition **holds** under the given zero and carry flags. -/
def Condition.holds (zero carry : Bool) : Condition → Bool
  | .notZero => !zero
  | .zero => zero
  | .notCarry => !carry
  | .carry => carry

/-- Source or destination of an 8 bit operation. -/
inductive Operand8
  | register (r : Reg8)
  | immediate (value : Byte)
  /-- The byte that HL points to. -/
  | indirectHl
  /-- The byte that a register pair points to. -/
  | indirect (pair : Reg16)
  /-- The byte that HL points to; HL is incremented after the access. -/
  | indirectHlIncrement
  /-- The byte that HL points to; HL is decremented after the access. -/
  | indirectHlDecrement
  /-- The byte at a fixed address. -/
  | absolute (address : Address)
  /-- The byte at `0xFF00` plus a fixed offset. -/
  | highAbsolute (offset : Byte)
  /-- The byte at `0xFF00` plus register C. -/
  | highC
  deriving DecidableEq

namespace Operand8

/-- The operand selected by the three bit register field used all over the opcode tables. -/
def ofIndex (field : BitVec 3) : Operand8 :=
  match field.toNat with
  | 0 => .register .b
  | 1 => .register .c
  | 2 => .register .d
  | 3 => .register .e
  | 4 => .register .h
  | 5 => .register .l
  | 6 => .indirectHl
  | _ => .register .a

/-- Whether the operand is a byte of guest memory. -/
def isMemory : Operand8 → Bool
  | register _ => false
  | immediate _ => false
  | _ => true

/-- Clock cycles spent on fetching the operand, on top of the opcode fetch. -/
def accessCycles : Operand8 → Nat
  | register _ => 0
  | highAbsolute _ => 8
  | absolute _ => 12
  | _ => 4

end Operand8

/-- Operation on the accumulator and an 8 bit operand. -/
inductive AluOp
  | add | adc | sub | sbc | and | xor | or | cp
  deriving DecidableEq

/-- The accumulator operation selected by a three bit field. -/
def AluOp.ofIndex (field : BitVec 3) : AluOp :=
  match field.toNat with
  | 0 => .add
  | 1 => .adc
  | 2 => .sub
  | 3 => .sbc
  | 4 => .and
  | 5 => .xor
  | 6 => .or
  | _ => .cp

/-- Rotation or shift of an 8 bit operand by one place, or the exchange of its two nibbles. -/
inductive ShiftOp
  | rlc | rrc | rl | rr | sla | sra | swap | srl
  deriving DecidableEq

/-- The shift selected by a three bit field. -/
def ShiftOp.ofIndex (field : BitVec 3) : ShiftOp :=
  match field.toNat with
  | 0 => .rlc
  | 1 => .rrc
  | 2 => .rl
  | 3 => .rr
  | 4 => .sla
  | 5 => .sra
  | 6 => .swap
  | _ => .srl

end Dynarec.Guest
