import Dynarec.Word

/-!
# Faults

A **fault** is a misuse of the assembler or of a guest range: a request that has no meaning, as
opposed to guest code that cannot be compiled. Every fault has a text (`Fault.message`).

Two of them speak about **patches**, the displacement fields of branches whose label is not bound
yet, so these are declared here as well.
-/

namespace Dynarec

/-- **Width** of the displacement field of a relative branch. -/
inductive BranchWidth
  | short
  | near
  deriving DecidableEq

/-- The number of bytes in a displacement field. -/
def BranchWidth.bytes : BranchWidth → Nat
  | short => 1
  | near => 4

/-- The written form of a width. -/
def BranchWidth.text : BranchWidth → String
  | short => "Rel8"
  | near => "Rel32"

/-- A **patch**: the displacement field of a branch that waits for its label. -/
structure Patch where
  /-- Where the field starts in the code. -/
  offset : Nat
  width : BranchWidth
  /-- The number of the label that the branch leads to. -/
  label : Nat
  deriving DecidableEq

/-- The offset right after the field, where the branch ends. Displacements count from here. -/
def Patch.fieldEnd (p : Patch) : Nat := p.offset + p.width.bytes

/-- The written form of a patch. -/
def Patch.text (p : Patch) : String :=
  "Patch \x7b offset: " ++ toString p.offset ++ ", width: " ++ p.width.text ++
    ", label: Label(" ++ toString p.label ++ ") \x7d"

/-- Misuse of the assembler or of a guest range. -/
inductive Fault
  /-- A shift by nothing, which would leave the host flags as they were. -/
  | zeroShift
  /-- The stack pointer as an index register, which has no encoding. -/
  | stackPointerIndex
  /-- A bit test past the 32 bits that it looks at. -/
  | bitOutOfRange
  /-- An effective address narrower than 32 bits. -/
  | narrowAddress
  /-- An indirect call without a target. -/
  | missingCallTarget
  /-- A displacement that a short branch cannot hold. -/
  | shortDisplacement
  /-- A label that the short branch at `offset` cannot reach. -/
  | unreachableLabel (distance : Int) (offset : Nat)
  /-- A label too far away for any branch. -/
  | distantLabel
  /-- A second position for a label. -/
  | labelRebound (label : Nat)
  /-- Branches to labels that were never bound. -/
  | unresolvedPatches (patches : List Patch)
  /-- A code block finished before its guest size is known. -/
  | neverClosed
  /-- A guest range without addresses. -/
  | emptyRange
  /-- A guest range whose end exceeds 64 bits. -/
  | rangeOverflow
  /-- A guest range past the top of the guest's address space. -/
  | rangePastTop
  deriving DecidableEq

/-- The text of a fault. -/
def Fault.message : Fault → String
  | zeroShift => "Shifting by 0 leaves the flags untouched"
  | stackPointerIndex => "rsp cannot be used as an index register"
  | bitOutOfRange => "assertion failed: bit < 32"
  | narrowAddress => "lea is only encoded for 32 and 64 bit destinations"
  | missingCallTarget => "Call should contain a target"
  | shortDisplacement => "Displacement out of range for a short branch"
  | unreachableLabel distance offset =>
    "Displacement " ++ toString distance ++ " at offset " ++ toString offset ++
      " does not fit a short branch"
  | distantLabel => "Displacement does not fit a near branch"
  | labelRebound label => "Label Label(" ++ toString label ++ ") bound twice"
  | unresolvedPatches patches =>
    "Unresolved branch patches at finalize: [" ++ ", ".intercalate (patches.map Patch.text) ++ "]"
  | neverClosed => "Finalizing a code block that was never closed"
  | emptyRange => "assertion failed: size > 0"
  | rangeOverflow => "attempt to add with overflow"
  | rangePastTop => "assertion failed: start_addr as usize + size <= 0x1_0000"

end Dynarec
