import Dynarec.Codegen.Binding

/-!
# Guest flags from host flags

The guest's Z and C are kept in the **shadow flags**, at the bits where the host flags have ZF and
CF. Guest flags are defined in two steps: the host flags are **captured** right after the
instruction that sets them, and **committed** to the shadow flags according to a `FlagRule` once the
result has been written back. A commit ends with a **sync**, which makes the host flags equal to the
shadow flags, so that a branch directly after it needs no reload.
-/

namespace Dynarec.Codegen

open Host (Register Instruction)

/-- ZF among the host flags. -/
def hostZero : HostWord := 0x40

/-- CF among the host flags. -/
def hostCarry : HostWord := 0x01

/-- **How guest flags follow** from the captured host flags. -/
inductive FlagRule
  /-- Z and C both from the result. -/
  | zeroAndCarry
  /-- Z from the result, C kept. -/
  | zeroKeepCarry
  /-- C from the result, Z kept. -/
  | carryKeepZero
  /-- C from the result, Z cleared. -/
  | carryClearZero
  deriving DecidableEq

/-- The captured bits that a rule takes over. -/
def FlagRule.fresh : FlagRule → HostWord
  | zeroAndCarry => hostZero ||| hostCarry
  | zeroKeepCarry => hostZero
  | carryKeepZero => hostCarry
  | carryClearZero => hostCarry

/-- The shadow bit that a rule keeps, if any. -/
def FlagRule.kept : FlagRule → Option HostWord
  | zeroAndCarry => none
  | zeroKeepCarry => some hostCarry
  | carryKeepZero => some hostZero
  | carryClearZero => none

/-- Masks a register. -/
def mask (r : Register) (bits : HostWord) : Instruction := .alu .and .dword r (.immediate bits)

/-- Copies the host flags into the capture register. -/
def captureFlags : List Instruction := [.pushFlags, .pop capturedFlags]

/-- Reloads the host flags from the shadow flags. -/
def syncFlags : List Instruction := [.push shadowFlags, .popFlags]

/-- Merges the captured flags into the shadow flags, and reloads the host flags. -/
def commitFlags (rule : FlagRule) : List Instruction :=
  let merge : List Instruction :=
    match rule.kept with
    | some kept => [mask shadowFlags kept, .alu .or .dword shadowFlags (.register capturedFlags)]
    | none => [.mov .dword shadowFlags (.register capturedFlags)]
  mask capturedFlags rule.fresh :: merge ++ syncFlags

/-- Capture and commit, for results that need no write-back in between. -/
def updateFlags (rule : FlagRule) : List Instruction := captureFlags ++ commitFlags rule

/-- Replaces ZF in the capture by a test of the low byte of `r`. Rotations define CF only. -/
def captureZeroOf (r : Register) : List Instruction :=
  [.test .byte r (.register r), .pushFlags, .pop scratchFlags, mask scratchFlags hostZero,
    mask capturedFlags hostCarry, .alu .or .dword capturedFlags (.register scratchFlags)]

/-- Moves the guest carry into CF, for operations with a carry-in. -/
def loadCarry : List Instruction := [.bitTest shadowFlags 0]

/-- Sets the guest carry. -/
def setCarry : List Instruction :=
  .alu .or .dword shadowFlags (.immediate hostCarry) :: syncFlags

/-- Complements the guest carry. -/
def complementCarry : List Instruction :=
  .alu .xor .dword shadowFlags (.immediate hostCarry) :: syncFlags

/-- Clears both guest flags. -/
def clearFlags : List Instruction :=
  .alu .xor .dword shadowFlags (.register shadowFlags) :: syncFlags

/-- Turns the guest's F in `src`, with Z at bit 7 and C at bit 4, into the shadow flags. Changes
`src` and `scratch`. -/
def guestToShadow (src scratch : Register) : List Instruction :=
  [.mov .dword scratch (.register src), .shift .shr .dword scratch 1, mask scratch hostZero,
    .shift .shr .dword src 4, mask src hostCarry, .alu .or .dword src (.register scratch),
    .mov .dword shadowFlags (.register src)]

/-- Turns the shadow flags into the guest's F in `dst`. Changes `scratch`. -/
def shadowToGuest (dst scratch : Register) : List Instruction :=
  [.mov .dword dst (.register shadowFlags), mask dst hostZero, .shift .shl .dword dst 1,
    .mov .dword scratch (.register shadowFlags), mask scratch hostCarry,
    .shift .shl .dword scratch 4, .alu .or .dword dst (.register scratch)]

end Dynarec.Codegen
