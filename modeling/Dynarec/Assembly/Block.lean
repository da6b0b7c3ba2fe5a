import Dynarec.Assembly.Code
import Dynarec.Guest.Range

/-!
# Code blocks

A `CodeBlock` pairs the host code under construction with the guest addresses that it stands for. It
is **opened** at a guest address, **closed** once the number of guest bytes is known, and
**finished** into a guest range and machine code.
-/

namespace Dynarec.Assembly

open Guest (Range)

/-- Host code under construction for guest code at `start`. -/
structure CodeBlock where
  start : Address
  /-- The number of guest bytes, once the block is closed. -/
  guestSize : Option Nat
  stream : CodeStream

namespace CodeBlock

/-- A block without code. -/
def openAt (start : Address) : CodeBlock := ⟨start, none, .empty⟩

/-- Records how many guest bytes the block stands for. -/
def close (b : CodeBlock) (guestSize : Nat) : CodeBlock := { b with guestSize := some guestSize }

/-- Appends structured code. -/
def extend (b : CodeBlock) (code : Code) : Except Fault CodeBlock :=
  (b.stream.extend code).map fun stream => { b with stream }

/-- The guest range and the machine code. A block that was not closed, a range that does not fit
guest memory and a pending patch are faults, in this order. -/
def finish (b : CodeBlock) : Except Fault (Range × Array Byte) :=
  match b.guestSize with
  | none => .error .neverClosed
  | some size => do
    let range ← Range.mk? b.start size
    let code ← b.stream.finish
    return (range, code)

end CodeBlock

end Dynarec.Assembly
