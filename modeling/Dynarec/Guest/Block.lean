import Dynarec.Guest.Decoder
import Dynarec.Guest.Image

/-!
# Guest blocks

A **block** is a run of guest instructions that is entered at its first instruction only. It is read
from an image by decoding one instruction after another until

* an instruction **ends the block**, since control never falls through it,
* the block holds as many instructions as allowed, or
* the image ends exactly where the next instruction would start.

In the last two cases control **falls through** to the address after the block. Reading fails at the
first instruction, in address order, that has an unknown opcode, runs past the end of the image, or
cannot be compiled (`DAA`). `scan` returns the instructions it has seen together with the outcome,
so that a trace of a failed attempt is a view of the same value.
-/

namespace Dynarec.Guest

/-- Why an instruction could not be fetched. -/
inductive FetchError
  | unknownOpcode (opcode : Byte)
  | overrun
  deriving DecidableEq

/-- Why a block could not be read. -/
inductive ScanError
  | unknownOpcode (opcode : Byte)
  /-- The instruction decodes but cannot be compiled. -/
  | unhandled (address : Address) (operation : Operation)
  /-- The instruction at `address` runs past the end of the image. -/
  | overrun (address : Address)
  deriving DecidableEq

/-- A failed fetch of the instruction at `address`. -/
def FetchError.toScanError (address : Address) : FetchError → ScanError
  | unknownOpcode opcode => .unknownOpcode opcode
  | overrun => .overrun address

namespace Image

/-- Feeds the bytes from `cursor` on to a decoder until an instruction is complete. `left` is the
number of bytes from `cursor` to the end of the image. Returns the instruction and the index after
it. -/
def fetchFrom (image : Image) : (left : Nat) → Decoder → (cursor : Nat) →
    Except FetchError (Instruction × Nat)
  | 0, _, _ => .error .overrun
  | left + 1, decoder, cursor =>
    match decoder.feed (image.byte cursor) with
    | (.complete instruction, _) => .ok (instruction, cursor + 1)
    | (.unknown opcode, _) => .error (.unknownOpcode opcode)
    | (.pending, decoder) => image.fetchFrom left decoder (cursor + 1)

/-- The instruction at an index of the image, and the index after it. -/
def fetch (image : Image) (cursor : Nat) : Except FetchError (Instruction × Nat) :=
  image.fetchFrom (image.size - cursor) .boundary cursor

end Image

/-- An instruction at its guest address. -/
structure Placed where
  address : Address
  instruction : Instruction
  deriving DecidableEq

/-- The address after a placed instruction. -/
def Placed.next (p : Placed) : Address := p.address + BitVec.ofNat 16 p.instruction.size

/-- Whether an operation can be compiled. Decimal adjustment cannot: it depends on flags that are
not kept. -/
def Operation.isHandled (operation : Operation) : Bool := decide (operation ≠ .daa)

/-- Where a block ends in its image, and whether control falls through its end. -/
structure Ending where
  cursor : Nat
  fallsThrough : Bool
  deriving DecidableEq

/-- The **result of reading** a block: the instructions decoded on the way and the outcome. If an
instruction decodes but is not handled, it is the last one of the listing. -/
structure Scan where
  listing : List Placed
  outcome : Except ScanError Ending

/-- Puts an instruction in front of what is read after it. -/
def Scan.after (p : Placed) (rest : Scan) : Scan := ⟨p :: rest.listing, rest.outcome⟩

/-- **Reads a block** from `cursor` on. After the first instruction at most `budget` more are
read. -/
def Image.scan (image : Image) : (budget cursor : Nat) → Scan
  | budget, cursor =>
    let address := BitVec.ofNat 16 cursor
    match image.fetch cursor with
    | .error e => ⟨[], .error (e.toScanError address)⟩
    | .ok (instruction, next) =>
      let placed : Placed := ⟨address, instruction⟩
      if !instruction.operation.isHandled then
        ⟨[placed], .error (.unhandled address instruction.operation)⟩
      else if instruction.operation.endsBlock then ⟨[placed], .ok ⟨next, false⟩⟩
      else
        match budget with
        | 0 => ⟨[placed], .ok ⟨next, true⟩⟩
        | budget + 1 =>
          if image.size ≤ next then ⟨[placed], .ok ⟨next, true⟩⟩
          else .after placed (image.scan budget next)

end Dynarec.Guest
