import Dynarec.Codegen.Stack
import Dynarec.Guest.Block
import Dynarec.Guest.Exit

/-!
# Code for guest operations

`operationCode` is the host code of one guest instruction. It first adds the instruction's cycles to
the counter and then performs the operation on the bound registers. Code that **leaves the block**
puts the next guest address into `rdx` and the reason into `rax` and returns; a conditional branch
skips that code when its condition fails.

A conditional branch tests the host flags, which have to equal the shadow flags there. `HostFlags`
tells whether they do anyway (**synced**) or have to be reloaded (**clobbered**); `HostFlags.after`
is what is known after an instruction.
-/

namespace Dynarec.Codegen

open Host (Register Instruction Memory)
open Assembly (Code)
open Bridge (Handler Layout)
open Guest (Operand8 Reg8 Reg16 Condition AluOp ShiftOp Operation Placed ExitReason)

/-! ### What is known about the host flags -/

/-- Whether the host flags equal the shadow flags. -/
inductive HostFlags
  | synced
  | clobbered
  deriving DecidableEq

/-- Whether an operand can be read and written without touching the host flags. -/
def isNeutralOperand : Operand8 → Bool
  | .register g =>
    match slot g with
    | .high _ => false
    | _ => true
  | .immediate _ => true
  | _ => false

/-- Whether the code of an operation never touches the host flags. -/
def isFlagNeutral : Operation → Bool
  | .nop => true
  | .loadImmediate16 _ _ => true
  | .increment16 _ => true
  | .decrement16 _ => true
  | .load dst src => isNeutralOperand dst && isNeutralOperand src
  | _ => false

/-- Whether the code of an operation ends with the host flags equal to the shadow flags, on the path
that stays in the block. -/
def endsSynced : Operation → Bool
  | .scf | .ccf => true
  | .loadHlFromStackOffset _ => true
  | .addStackPointer _ => true
  | .alu _ _ => true
  | .addHl _ => true
  | .rotateAccumulator _ => true
  | .bit _ _ => true
  | .increment target => !target.isMemory
  | .decrement target => !target.isMemory
  | .shift _ target => !target.isMemory
  | .jump condition _ => condition.isSome
  | .jumpRelative condition _ => condition.isSome
  | .call condition _ => condition.isSome
  | .ret condition => condition.isSome
  | _ => false

/-- What is known about the host flags **after** an operation. -/
def HostFlags.after (before : HostFlags) (operation : Operation) : HostFlags :=
  if isFlagNeutral operation then before
  else if endsSynced operation then .synced
  else .clobbered

/-! ### Leaving the block -/

/-- Adds to the cycle counter, without touching the host flags. -/
def addCycles (cycles : Nat) : List Instruction :=
  if cycles = 0 then []
  else
    [.lea .qword cycleCounter ((Memory.ofBase cycleCounter).offset (BitVec.ofNat 32 cycles))]

/-- Leaves the block for the guest address in `rdx`. -/
def leave (reason : ExitReason) : List Instruction :=
  [.mov .dword result (.immediate reason.code), .ret]

/-- Leaves the block for a known guest address. -/
def leaveFor (target : Address) (reason : ExitReason) : List Instruction :=
  .mov .dword value (.immediate (target.setWidth 64)) :: leave reason

/-- The host condition that holds when a guest condition does, provided that the host flags equal
the shadow flags. -/
def hostCondition : Condition → Host.Condition
  | .notZero => .notEqual
  | .zero => .equal
  | .notCarry => .aboveOrEqual
  | .carry => .below

/-- Code that runs if a condition holds, after a reload of the host flags where they are not known
to be synced. Taking it costs extra cycles. -/
def conditionally (before : HostFlags) (condition : Option Condition) (width : BranchWidth)
    (takenCycles : Nat) (body : Code) : Code :=
  match condition with
  | none => body
  | some condition =>
    .straight (match before with | .synced => [] | .clobbered => syncFlags) ++
      .skip (hostCondition condition).invert width (.straight (addCycles takenCycles) ++ body)

/-- Pushes a return address and leaves the block for the target of a call. -/
def callCode (layout : Layout) (returnAddress target : Address) : Code :=
  Code.instruction (.mov .dword value (.immediate (returnAddress.setWidth 64))) ++
    pushValue layout ++ .straight (leaveFor target .branch)

/-- Pops a return address and leaves the block for it. -/
def returnCode (layout : Layout) : Code :=
  popValue layout ++ .straight (.mov .dword value (.register result) :: leave .branch)

/-- Tells the memory device whether interrupts are enabled. -/
def interruptCode (layout : Layout) (enabled : Bool) : List Instruction :=
  .mov .dword address (.immediate (if enabled then 1 else 0)) ::
    callHandler layout .interruptMasterEnable

/-! ### Operands -/

/-- Changes a register pair other than SP by a constant, modulo `2 ^ 16`. -/
def adjustPair (r : Register) (delta : BitVec 32) : List Instruction :=
  [.lea .dword r ((Memory.ofBase r).offset delta), .movzx true r (.register r)]

/-- Where the guest address of a memory operand comes from, and the instructions that put it into
`rsi` if it is not known while compiling. -/
def operandAddress : Operand8 → List Instruction × GuestAddress
  | .indirectHl | .indirectHlIncrement | .indirectHlDecrement =>
    ([.mov .dword address (.register (pairRegister .hl))], .dynamic)
  | .indirect pair => ([.mov .dword address (.register (pairRegister pair))], .dynamic)
  | .absolute target => ([], .constant target)
  | .highAbsolute offset => ([], .constant (0xFF00 ||| offset.setWidth 16))
  | .highC =>
    (load8 .c address ++ [.alu .or .dword address (.immediate 0xFF00)], .dynamic)
  | .register _ | .immediate _ => ([], .dynamic)

/-- What happens to HL once an operand has been accessed. -/
def afterAccess : Operand8 → List Instruction
  | .indirectHlIncrement => adjustPair (pairRegister .hl) 1
  | .indirectHlDecrement => adjustPair (pairRegister .hl) (-1)
  | _ => []

/-- The host register in which an operand is when it has been read. -/
def operandRegister (o : Operand8) : Register := if o.isMemory then result else operand

/-- **Reads an operand**, zero-extended, into its register. -/
def readOperand (layout : Layout) : Operand8 → Code
  | .register g => .straight (load8 g operand)
  | .immediate v => Code.instruction (.mov .dword operand (.immediate (v.setWidth 64)))
  | o =>
    .straight (operandAddress o).1 ++ read8 layout (operandAddress o).2 ++ .straight (afterAccess o)

/-- **Writes** the low byte of `src` **to an operand**. A constant cannot be written. -/
def writeOperand (layout : Layout) (o : Operand8) (src : Register) : Code :=
  match o with
  | .register g => .straight (store8 g src)
  | .immediate _ => .empty
  | o =>
    .straight ((if src = value then [] else [.mov .dword value (.register src)]) ++
        (operandAddress o).1) ++
      write8 layout (operandAddress o).2 ++ .straight (afterAccess o)

/-- Reads an operand, changes it in its register and writes it back. With a flag rule the change
ends with a capture of the host flags: a register is written before the commit, memory after it
since the write may call a handler. -/
def modifyOperand (layout : Layout) (o : Operand8) (rule : Option FlagRule)
    (change : Register → List Instruction) : Code :=
  let r := operandRegister o
  let changed := readOperand layout o ++ .straight (change r)
  match rule with
  | none => changed ++ writeOperand layout o r
  | some rule =>
    if o.isMemory then changed ++ .straight (commitFlags rule) ++ writeOperand layout o r
    else changed ++ writeOperand layout o r ++ .straight (commitFlags rule)

/-! ### Arithmetic -/

/-- The host operation of an accumulator operation. -/
def hostAluOp : AluOp → Host.AluOp
  | .add => .add
  | .adc => .adc
  | .sub => .sub
  | .sbc => .sbb
  | .and => .and
  | .xor => .xor
  | .or => .or
  | .cp => .cmp

/-- Whether an accumulator operation has a carry-in. -/
def usesCarry (op : AluOp) : Bool := decide (op = .adc ∨ op = .sbc)

/-- An accumulator operation with an operand. -/
def aluCode (layout : Layout) (op : AluOp) (src : Operand8) : Code :=
  readOperand layout src ++
    .straight ((if usesCarry op then loadCarry else []) ++
      [.alu (hostAluOp op) .byte accumulator (.register (operandRegister src))] ++
      updateFlags .zeroAndCarry)

/-- Adds a constant to an operand. -/
def incrementCode (layout : Layout) (target : Operand8) (delta : HostWord) : Code :=
  modifyOperand layout target (some .zeroKeepCarry) fun r =>
    .alu .add .byte r (.immediate delta) :: captureFlags

/-- Adds a constant to a register pair. -/
def increment16Code (pair : Reg16) (delta : BitVec 32) : List Instruction :=
  match pair with
  | .sp => .lea .dword result ((Memory.ofBase stackPointer).offset delta) :: store16 .sp result
  | _ => adjustPair (pairRegister pair) delta

/-- `ADD HL, rr` -/
def addHlCode (pair : Reg16) : List Instruction :=
  load16 .hl result ++ [.alu .add .word result (.register (pairRegister pair))] ++ captureFlags ++
    store16 .hl result ++ commitFlags .carryKeepZero

/-- Rotates a register by one place. Rotations through the carry load it first. -/
def rotate (op : ShiftOp) (r : Register) : List Instruction :=
  match op with
  | .rlc => [.shift .rol .byte r 1]
  | .rrc => [.shift .ror .byte r 1]
  | .rl => loadCarry ++ [.shift .rcl .byte r 1]
  | _ => loadCarry ++ [.shift .rcr .byte r 1]

/-- Shifts or rotates a register and captures the host flags. -/
def shiftRegister (op : ShiftOp) (r : Register) : List Instruction :=
  match op with
  | .sla => .shift .shl .byte r 1 :: captureFlags
  | .sra => .shift .sar .byte r 1 :: captureFlags
  | .srl => .shift .shr .byte r 1 :: captureFlags
  | .swap => [.shift .rol .byte r 4, .test .byte r (.register r)] ++ captureFlags
  | op => rotate op r ++ captureFlags ++ captureZeroOf r

/-- The byte in which one bit is set. -/
def bitMask (index : BitVec 3) : Byte := (1 : Byte) <<< index

/-! ### Operations -/

/-- The host code that performs an operation. `next` is the guest address after the instruction. -/
def operationBody (layout : Layout) (before : HostFlags) (next : Address) (operation : Operation) :
    Code :=
  let takenCycles := operation.cycles.branchTaken
  match operation with
  | .nop => .empty
  | .stop => .straight (leaveFor next .stop)
  | .halt => .straight (leaveFor next .halt)
  | .di => .straight (interruptCode layout false)
  | .ei => .straight (interruptCode layout true)
  | .daa => .empty
  | .cpl => Code.instruction (.alu .xor .dword accumulator (.immediate 0xFF))
  | .scf => .straight setCarry
  | .ccf => .straight complementCarry
  | .load dst src => readOperand layout src ++ writeOperand layout dst (operandRegister src)
  | .loadImmediate16 .sp v => .straight (loadStackPointerConstant layout v)
  | .loadImmediate16 pair v =>
    Code.instruction (.mov .dword (pairRegister pair) (.immediate (v.setWidth 64)))
  | .storeStackPointer target => storeStackPointer layout target
  | .loadStackPointerFromHl => .straight (loadStackPointerFromHl layout)
  | .loadHlFromStackOffset offset => .straight (loadHlFromStackOffset offset)
  | .addStackPointer offset => .straight (addStackPointer offset)
  | .alu op src => aluCode layout op src
  | .increment target => incrementCode layout target 1
  | .decrement target => incrementCode layout target (-1)
  | .increment16 pair => .straight (increment16Code pair 1)
  | .decrement16 pair => .straight (increment16Code pair (-1))
  | .addHl pair => .straight (addHlCode pair)
  | .rotateAccumulator op => .straight (rotate op accumulator ++ updateFlags .carryClearZero)
  | .shift op target => modifyOperand layout target (some .zeroAndCarry) (shiftRegister op)
  | .bit index target =>
    readOperand layout target ++
      .straight (.test .byte (operandRegister target) (.immediate ((bitMask index).setWidth 64)) ::
        updateFlags .zeroKeepCarry)
  | .reset index target =>
    modifyOperand layout target none fun r =>
      [.alu .and .byte r (.immediate ((~~~bitMask index).setWidth 64))]
  | .set index target =>
    modifyOperand layout target none fun r =>
      [.alu .or .byte r (.immediate ((bitMask index).setWidth 64))]
  | .jump condition target =>
    conditionally before condition .short takenCycles (.straight (leaveFor target .branch))
  | .jumpHl => .straight (load16 .hl value ++ leave .branch)
  | .jumpRelative condition offset =>
    conditionally before condition .short takenCycles
      (.straight (leaveFor (next + offset.signExtend 16) .branch))
  | .call condition target =>
    conditionally before condition .near takenCycles (callCode layout next target)
  | .ret condition => conditionally before condition .near takenCycles (returnCode layout)
  | .retInterrupt => .straight (interruptCode layout true) ++ returnCode layout
  | .restart vector => callCode layout next (vector.setWidth 16)
  | .push pair => push layout pair
  | .pop pair => pop layout pair

/-- The **host code of an instruction**, its cycles included. -/
def operationCode (layout : Layout) (before : HostFlags) (p : Placed) : Code :=
  .straight (addCycles p.instruction.cycles.base) ++
    operationBody layout before p.next p.instruction.operation

end Dynarec.Codegen
