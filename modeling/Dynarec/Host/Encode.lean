import Dynarec.Host.Instruction

/-!
# Machine code of host instructions

An encoded instruction consists, in this order, of

* the **operand size byte** `0x66` for 16 bit operations,
* the **REX byte**, which selects 64 bit operations (`w`) and holds the fourth bits of the register
  numbers in the register field (`r`), the index field (`x`) and the base field (`b`),
* the **opcode**,
* the **ModRM byte**, two bits of mode and two register fields; the second one may announce
* the **SIB byte** with the index and base registers of a memory operand,
* the **displacement** of the memory operand in zero, one or four bytes, and
* the **immediate** operand.

`encode` is total; `assemble` refuses the instructions that have no encoding.
-/

namespace Dynarec.Host

/-- The fields of the REX byte. -/
structure Rex where
  w : Bool
  r : Bool
  x : Bool
  b : Bool
  deriving DecidableEq

namespace Rex

/-- The REX byte with the given fields. -/
def byte (rex : Rex) : Byte :=
  0x4#4 ++ BitVec.ofBool rex.w ++ BitVec.ofBool rex.r ++ BitVec.ofBool rex.x ++ BitVec.ofBool rex.b

/-- Whether any field is set. -/
def any (rex : Rex) : Bool := rex.w || rex.r || rex.x || rex.b

/-- The REX byte, left out if it has nothing to say. -/
def encode (rex : Rex) (forced : Bool) : List Byte := if rex.any || forced then [rex.byte] else []

end Rex

/-- What stands in the register field of the ModRM byte: a register, or the number that selects an
operation inside its group. -/
inductive RegField
  | register (r : Register)
  | digit (d : BitVec 3)

namespace RegField

/-- The three bits of the field. -/
def bits : RegField → BitVec 3
  | register r => r.low
  | digit d => d

/-- The fourth bit of the field, in the REX byte. -/
def isExtended : RegField → Bool
  | register r => r.isExtended
  | digit _ => false

/-- Whether naming the low byte of the register in the field takes a REX byte. -/
def needsRexAsByte : RegField → Bool
  | register r => r.needsRexAsByte
  | digit _ => false

end RegField

namespace Memory

/-- How a displacement is encoded. -/
inductive Mode
  | none
  | byte
  | dword
  deriving DecidableEq

/-- The mode bits of the ModRM byte. -/
def Mode.bits : Mode → BitVec 2
  | none => 0
  | byte => 1
  | dword => 2

/-- The **mode** of a memory operand: no displacement if it is zero, one byte if it fits. The base
registers whose field is `5` always have a displacement, since the field means something else
without one. -/
def mode (m : Memory) : Mode :=
  if m.displacement = 0 ∧ m.base.low ≠ 5 then .none
  else if (m.displacement.setWidth 8).signExtend 32 = m.displacement then .byte
  else .dword

/-- The bytes of the displacement. -/
def displacementBytes (m : Memory) : List Byte :=
  match m.mode with
  | .none => []
  | .byte => bytesLE 1 m.displacement
  | .dword => bytesLE 4 m.displacement

/-- Whether the operand takes a SIB byte: if it has an index, or its base register has the field
that announces the SIB byte. -/
def hasSib (m : Memory) : Bool := m.index.isSome || m.base.low == 4

/-- The fields of a memory operand after the opcode. -/
def encode (reg : BitVec 3) (m : Memory) : List Byte :=
  if m.hasSib then
    (m.mode.bits ++ reg ++ 4#3) ::
      (0#2 ++ (m.index.map Register.low).getD 4 ++ m.base.low) :: m.displacementBytes
  else (m.mode.bits ++ reg ++ m.base.low) :: m.displacementBytes

end Memory

namespace Place

/-- The fields of a register or memory operand after the opcode. -/
def encode (reg : BitVec 3) : Place → List Byte
  | register r => [3#2 ++ reg ++ r.low]
  | memory m => m.encode reg

/-- The fourth bit of the index field. -/
def indexIsExtended : Place → Bool
  | register _ => false
  | memory m => (m.index.map Register.isExtended).getD false

/-- The fourth bit of the base field. -/
def baseIsExtended : Place → Bool
  | register r => r.isExtended
  | memory m => m.base.isExtended

/-- Whether naming the low byte of the operand takes a REX byte. -/
def needsRexAsByte : Place → Bool
  | register r => r.needsRexAsByte
  | memory _ => false

end Place

namespace Size

/-- The operand size byte. -/
def marker : Size → List Byte
  | word => [0x66]
  | _ => []

end Size

/-- An instruction with a ModRM byte. With `byteRegisters`, register fields name low bytes. -/
def encodeModRM (size : Size) (byteRegisters : Bool) (opcode : List Byte) (reg : RegField)
    (place : Place) (immediate : List Byte) : List Byte :=
  let rex : Rex := ⟨size = .qword, reg.isExtended, place.indexIsExtended, place.baseIsExtended⟩
  let forced := byteRegisters && (reg.needsRexAsByte || place.needsRexAsByte)
  size.marker ++ rex.encode forced ++ opcode ++ place.encode reg.bits ++ immediate

/-- An instruction that keeps its register in the low bits of the opcode. -/
def encodeShortForm (size : Size) (opcode : BitVec 5) (r : Register) (immediate : List Byte) :
    List Byte :=
  let rex : Rex := ⟨size = .qword, false, false, r.isExtended⟩
  size.marker ++ rex.encode (size = .byte && r.needsRexAsByte) ++ [opcode ++ r.low] ++ immediate

/-- Whether the value is the sign extension of its low `n` bits. -/
def fitsSigned (n : Nat) (value : HostWord) : Bool := (value.setWidth n).signExtend 64 == value

namespace Instruction

/-- The opcode of an operation that has one form for bytes and, one above it, one for larger
operands. -/
def sized (size : Size) (opcode : Byte) : Byte :=
  match size with
  | .byte => opcode
  | _ => opcode + 1

/-- The bytes of `mov dst, immediate`. A 64 bit move takes the 32 bit form if sign extension
reproduces the value. -/
def encodeMovImmediate (size : Size) (dst : Register) (value : HostWord) : List Byte :=
  match size with
  | .byte => encodeShortForm .byte 0x16 dst (bytesLE 1 value)
  | .word => encodeShortForm .word 0x17 dst (bytesLE 2 value)
  | .dword => encodeShortForm .dword 0x17 dst (bytesLE 4 value)
  | .qword =>
    if fitsSigned 32 value then
      encodeModRM .qword false [0xC7] (.digit 0) (.register dst) (bytesLE 4 value)
    else encodeShortForm .qword 0x17 dst (bytesLE 8 value)

/-- The bytes of an arithmetic operation with a constant, which takes one byte if sign extension
reproduces the value. -/
def encodeAluImmediate (op : AluOp) (size : Size) (dst : Register) (value : HostWord) : List Byte :=
  let encodeWith (opcode : Byte) (count : Nat) :=
    encodeModRM size (size = .byte) [opcode] (.digit op.digit) (.register dst) (bytesLE count value)
  if size = .byte then encodeWith 0x80 1
  else if fitsSigned 8 value then encodeWith 0x83 1
  else encodeWith 0x81 size.immediateBytes

/-- The bytes of a branch. -/
def encodeBranch (condition : Option Condition) (width : BranchWidth) (displacement : BitVec 32) :
    List Byte :=
  match condition, width with
  | none, .short => 0xEB :: bytesLE 1 displacement
  | none, .near => 0xE9 :: bytesLE 4 displacement
  | some c, .short => (0x7#4 ++ c.code) :: bytesLE 1 displacement
  | some c, .near => 0x0F :: (0x8#4 ++ c.code) :: bytesLE 4 displacement

/-- **Machine code** of an instruction, provided that it is encodable. -/
def encode : Instruction → List Byte
  | nop => [0x90]
  | ret => [0xC3]
  | pushFlags => [0x9C]
  | popFlags => [0x9D]
  | push src => encodeShortForm .dword 0x0A src []
  | pop dst => encodeShortForm .dword 0x0B dst []
  | mov size dst (.register src) =>
    encodeModRM size (size = .byte) [sized size 0x88] (.register src) (.register dst) []
  | mov size dst (.immediate value) => encodeMovImmediate size dst value
  | load size dst src =>
    encodeModRM size (size = .byte) [sized size 0x8A] (.register dst) (.memory src) []
  | store size dst src =>
    encodeModRM size (size = .byte) [sized size 0x88] (.register src) (.memory dst) []
  | lea size dst src => encodeModRM size false [0x8D] (.register dst) (.memory src) []
  | movzx wide dst src =>
    encodeModRM .dword (!wide) [0x0F, if wide then 0xB7 else 0xB6] (.register dst) src []
  | alu op size dst (.register src) =>
    encodeModRM size (size = .byte) [sized size (0#2 ++ op.digit ++ 0#3)] (.register src)
      (.register dst) []
  | alu op size dst (.immediate value) => encodeAluImmediate op size dst value
  | test size dst (.register src) =>
    encodeModRM size (size = .byte) [sized size 0x84] (.register src) (.register dst) []
  | test size dst (.immediate value) =>
    encodeModRM size (size = .byte) [sized size 0xF6] (.digit 0) (.register dst)
      (bytesLE size.immediateBytes value)
  | shift op size dst amount =>
    if amount = 1 then
      encodeModRM size (size = .byte) [sized size 0xD0] (.digit op.digit) (.register dst) []
    else
      encodeModRM size (size = .byte) [sized size 0xC0] (.digit op.digit) (.register dst) [amount]
  | bitTest src bit => encodeModRM .dword false [0x0F, 0xBA] (.digit 4) (.register src) [bit]
  | branch condition width displacement => encodeBranch condition width displacement
  | call (some target) => encodeModRM .dword false [0xFF] (.digit 2) target []
  | call none => []

/-- The number of bytes of an instruction. -/
def length (i : Instruction) : Nat := i.encode.length

/-- Machine code of an instruction, or what is wrong with it. -/
def assemble (i : Instruction) : Except Fault (List Byte) :=
  match i.fault? with
  | some fault => .error fault
  | none => .ok i.encode

end Instruction

end Dynarec.Host
