import Dynarec.Guest.Opcode

/-!
# The byte-fed decoder

A `Decoder` is fed one byte at a time and answers with an instruction when it has seen the last byte
of one. It stands either **at a boundary** between two instructions or inside an instruction. An
opcode that does not exist is reported at once and leaves the decoder at a boundary, so that a
stream can be read on after it.
-/

namespace Dynarec.Guest

/-- State of the byte-fed decoder. -/
inductive Decoder
  /-- Between two instructions. -/
  | boundary
  /-- After the byte that selects the second opcode table. -/
  | prefixed
  /-- Waiting for `remaining` operand bytes of `opcode`, the next of which belongs `shift` bits up
  in the operand read so far. -/
  | operand (opcode : Byte) (remaining : Nat) (value : BitVec 16) (shift : Nat)
  deriving DecidableEq

/-- What a byte brings about. -/
inductive Fed
  /-- The instruction is not complete yet. -/
  | pending
  /-- The byte was the last one of an instruction. -/
  | complete (instruction : Instruction)
  /-- The byte stands where an opcode is expected and is none. -/
  | unknown (opcode : Byte)
  deriving DecidableEq

namespace Decoder

/-- Whether the decoder is inside an instruction. -/
def isPending : Decoder → Bool
  | boundary => false
  | _ => true

/-- **Feeds** one byte. -/
def feed (d : Decoder) (byte : Byte) : Fed × Decoder :=
  match d with
  | boundary =>
    if byte = Opcode.tableSwitch then (.pending, prefixed)
    else
      match Opcode.operandSize byte with
      | none => (.unknown byte, boundary)
      | some 0 => (.complete ⟨Opcode.decode byte 0, 1⟩, boundary)
      | some remaining => (.pending, operand byte remaining 0 0)
  | prefixed => (.complete ⟨Opcode.decodePrefixed byte, 2⟩, boundary)
  | operand opcode remaining value shift =>
    let value := value ||| byte.setWidth 16 <<< shift
    if remaining = 1 then
      (.complete ⟨Opcode.decode opcode value, 1 + (Opcode.operandSize opcode).getD 0⟩, boundary)
    else (.pending, operand opcode (remaining - 1) value (shift + 8))

/-- What each byte of a stream brings about, with the decoder after it. -/
def feedAll (d : Decoder) : List Byte → List (Fed × Decoder)
  | [] => []
  | byte :: bytes => d.feed byte :: (d.feed byte).2.feedAll bytes

end Decoder

end Dynarec.Guest
