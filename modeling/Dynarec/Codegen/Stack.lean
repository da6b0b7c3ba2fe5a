import Dynarec.Codegen.Access
import Dynarec.Codegen.Flags

/-!
# The guest stack

Words are pushed and popped through `r14`, which points at the top of the guest stack, as long as SP
lies in **high memory**, from `0xFF80` on, where nothing but plain memory can be. A push looks at SP
before it is decremented, a pop before it is incremented; a pop at `0xFFFF` takes the slow path
since the second byte of its word lies outside of the window.
-/

namespace Dynarec.Codegen

open Host (Register Instruction Memory)
open Assembly (Code)
open Bridge (Layout)
open Guest (StackPair)

/-- The lowest SP that the fast path serves. -/
def highMemoryStart : Nat := 0xFF80

/-- Reads SP, zero-extended. -/
def loadStackPointer (dst : Register) : Instruction := .movzx true dst (.register stackPointer)

/-- Moves SP by a constant. -/
def moveStackPointer (op : Host.AluOp) (amount : HostWord) : Instruction :=
  .alu op .word stackPointer (.immediate amount)

/-! ### Push and pop -/

/-- **Pushes** the low word of `rdx`. -/
def pushValue (layout : Layout) : Code :=
  .choose
    [([loadStackPointer operand, moveStackPointer .sub 2, compare operand highMemoryStart], .below)]
    (.straight [.store .word (.ofBase stackPointer) value])
    (.straight (loadStackPointer address :: callHandler layout .write16))

/-- **Pops** a word into `rax`, zero-extended. -/
def popValue (layout : Layout) : Code :=
  .choose
      [([loadStackPointer operand, compare operand highMemoryStart], .below),
        ([compare operand 0xFFFF], .equal)]
      (.straight [.movzx true result (.memory (.ofBase stackPointer))])
      (.straight (.mov .dword address (.register operand) :: callHandler layout .read16 ++
        [.movzx true result (.register result)])) ++
    Code.instruction (moveStackPointer .add 2)

/-- Puts the value of a stack pair into `rdx`. F is formed from the shadow flags. -/
def loadStackPair : StackPair → List Instruction
  | .bc => load16 .bc value
  | .de => load16 .de value
  | .hl => load16 .hl value
  | .af =>
    [.mov .dword value (.register accumulator), .shift .shl .dword value 8] ++
      shadowToGuest result operand ++ [.alu .or .dword value (.register result)]

/-- Sets a stack pair to the word in `rax`. The low byte of AF replaces the shadow flags. -/
def storeStackPair : StackPair → List Instruction
  | .bc => store16 .bc result
  | .de => store16 .de result
  | .hl => store16 .hl result
  | .af =>
    [.mov .dword operand (.register result), .shift .shr .dword operand 8,
      .mov .dword accumulator (.register operand)] ++ guestToShadow result operand

/-- `PUSH rr` -/
def push (layout : Layout) (pair : StackPair) : Code :=
  .straight (loadStackPair pair) ++ pushValue layout

/-- `POP rr` -/
def pop (layout : Layout) (pair : StackPair) : Code :=
  popValue layout ++ .straight (storeStackPair pair)

/-! ### Stack pointer arithmetic -/

/-- Adds an offset to the low byte of SP for the sake of the carry. -/
def captureOffsetCarry (offset : Byte) : List Instruction :=
  [loadStackPointer result, .alu .add .byte result (.immediate (offset.setWidth 64))] ++
    captureFlags

/-- `LD HL, SP+e`. The carry comes from the low bytes, Z is cleared. -/
def loadHlFromStackOffset (offset : Byte) : List Instruction :=
  if offset = 0 then load16 .sp (pairRegister .hl) ++ clearFlags
  else
    captureOffsetCarry offset ++
      [loadStackPointer operand,
        .lea .dword operand ((Memory.ofBase operand).offset (offset.signExtend 32))] ++
      store16 .hl operand ++ commitFlags .carryClearZero

/-- `ADD SP, e`. The carry comes from the low bytes, Z is cleared. -/
def addStackPointer (offset : Byte) : List Instruction :=
  if offset = 0 then clearFlags
  else
    captureOffsetCarry offset ++ [moveStackPointer .add (offset.signExtend 64)] ++
      commitFlags .carryClearZero

/-- `LD SP, HL` -/
def loadStackPointerFromHl (layout : Layout) : List Instruction :=
  rebiasStackPointer layout.windowBase (pairRegister .hl)

/-- `LD SP, nn` -/
def loadStackPointerConstant (layout : Layout) (sp : BitVec 16) : List Instruction :=
  [.mov .qword stackPointer (.immediate (layout.windowBase ||| sp.setWidth 64))]

/-- `LD (nn), SP` -/
def storeStackPointer (layout : Layout) (target : Address) : Code :=
  Code.instruction (loadStackPointer value) ++ write16 layout (.constant target)

end Dynarec.Codegen
