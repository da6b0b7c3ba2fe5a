import Dynarec.Proofs.Host.RoundTrip

/-!
# The length of an instruction

An encoded instruction takes at most fifteen bytes (`Instruction.length_le`), the limit of the host,
and at least one if it is encodable (`Instruction.length_pos`). The first bounds how far apart the
two ends of a branch can lie, the second how many instructions a piece of code can hold.
-/

namespace Dynarec.Host

/-- The marker of a size is one byte, or none. -/
theorem Size.length_marker_le (size : Size) : size.marker.length ≤ 1 := by cases size <;> decide

/-- A REX prefix is one byte, or left out. -/
theorem Rex.length_encode_le (rex : Rex) (forced : Bool) : (rex.encode forced).length ≤ 1 := by
  rw [Rex.encode]
  split <;> simp

/-- A displacement takes up to four bytes. -/
theorem Memory.length_displacementBytes_le (m : Memory) : m.displacementBytes.length ≤ 4 := by
  rw [Memory.displacementBytes]
  cases m.mode <;> simp

/-- A place takes up to six bytes: those of the ModRM and the SIB byte and of the displacement. -/
theorem Place.length_encode_le (reg : BitVec 3) (place : Place) :
    (place.encode reg).length ≤ 6 := by
  cases place with
  | register r => simp [Place.encode]
  | memory m =>
    have := m.length_displacementBytes_le
    rw [Place.encode, Memory.encode]
    split <;> simp <;> omega

namespace Instruction

/-- The greatest number of bytes that an instruction takes. -/
def maxLength : Nat := 15

/-- Instructions with a ModRM byte are no longer than fifteen bytes if their opcode and their
immediate operand take at most seven: the markers take two, and the place six. -/
theorem length_encodeModRM_le {size : Size} {b : Bool} {opcode immediate : List Byte}
    {reg : RegField}
    {place : Place} (h : opcode.length + immediate.length ≤ 7) :
    (encodeModRM size b opcode reg place immediate).length ≤ maxLength := by
  have hmarker := size.length_marker_le
  have hrex := (modRMRex size reg place).length_encode_le (modRMForced reg place b)
  have hplace := place.length_encode_le reg.bits
  simp only [encodeModRM_eq, List.length_append, maxLength]
  omega

/-- Instructions that name their register in the opcode take up to eight bytes for an immediate
operand. -/
theorem length_encodeShortForm_le {size : Size} {opcode : BitVec 5} {r : Register}
    {immediate : List Byte} (h : immediate.length ≤ 8) :
    (encodeShortForm size opcode r immediate).length ≤ maxLength := by
  have hmarker := size.length_marker_le
  have hrex := Rex.length_encode_le ⟨size = .qword, false, false, r.isExtended⟩
    (size = .byte && r.needsRexAsByte)
  simp only [encodeShortForm, List.length_append, List.length_singleton, maxLength]
  omega

/-- The opcode of a branch takes one or two bytes. -/
theorem length_branchOpcode_le (condition : Option Condition) (width : BranchWidth) :
    (branchOpcode condition width).length ≤ 2 := by
  cases condition <;> cases width <;> simp [branchOpcode]

/-- A branch is as long as its opcode and its displacement. -/
theorem length_encodeBranch (condition : Option Condition) (width : BranchWidth) (d : BitVec 32) :
    (encodeBranch condition width d).length = (branchOpcode condition width).length +
      width.bytes := by
  rw [encodeBranch_eq, List.length_append, length_bytesLE]

/-- An immediate operand takes up to four bytes, other than that of a move of 64 bits. -/
theorem length_immediate_le {w : Nat} (size : Size) (v : BitVec w) :
    (bytesLE size.immediateBytes v).length ≤ 4 := by
  rw [length_bytesLE]
  cases size <;> decide

/-- A move of a constant, in each of its forms. -/
theorem length_encodeMovImmediate_le (size : Size) (dst : Register) (v : HostWord) :
    (encodeMovImmediate size dst v).length ≤ maxLength := by
  cases size with
  | byte => exact length_encodeShortForm_le (by simp)
  | word => exact length_encodeShortForm_le (by simp)
  | dword => exact length_encodeShortForm_le (by simp)
  | qword =>
    simp only [encodeMovImmediate]
    split
    · exact length_encodeModRM_le (by simp)
    · exact length_encodeShortForm_le (by simp)

/-- Arithmetic with a constant, in each of its forms. -/
theorem length_encodeAluImmediate_le (op : AluOp) (size : Size) (dst : Register) (v : HostWord) :
    (encodeAluImmediate op size dst v).length ≤ maxLength := by
  have h4 := length_immediate_le size v
  simp only [encodeAluImmediate]
  split
  · exact length_encodeModRM_le (by simp)
  · split
    · exact length_encodeModRM_le (by simp)
    · exact length_encodeModRM_le (by simp only [List.length_singleton]; omega)

/-- An instruction takes **at most fifteen bytes**. There is one case for each kind, which is made
of the parts above. -/
theorem length_le (i : Instruction) : i.length ≤ maxLength := by
  rw [length]
  cases i with
  | nop => decide
  | ret => decide
  | pushFlags => decide
  | popFlags => decide
  | push src => exact length_encodeShortForm_le (by simp)
  | pop dst => exact length_encodeShortForm_le (by simp)
  | mov size dst src =>
    cases src with
    | register src => exact length_encodeModRM_le (by simp)
    | immediate v => exact length_encodeMovImmediate_le size dst v
  | load size dst m => exact length_encodeModRM_le (by simp)
  | store size m src => exact length_encodeModRM_le (by simp)
  | lea size dst m => exact length_encodeModRM_le (by simp)
  | movzx wide dst src => exact length_encodeModRM_le (by simp)
  | alu op size dst src =>
    cases src with
    | register src => exact length_encodeModRM_le (by simp)
    | immediate v => exact length_encodeAluImmediate_le op size dst v
  | test size dst src =>
    cases src with
    | register src => exact length_encodeModRM_le (by simp)
    | immediate v =>
      have h4 := length_immediate_le size v
      exact length_encodeModRM_le (by simp only [List.length_singleton]; omega)
  | shift op size dst amount =>
    rw [encode]
    split <;> exact length_encodeModRM_le (by simp)
  | bitTest src bit => exact length_encodeModRM_le (by simp)
  | branch condition width d =>
    have hopcode := length_branchOpcode_le condition width
    have hwidth : width.bytes ≤ 4 := by cases width <;> decide
    rw [encode, length_encodeBranch, maxLength]
    omega
  | call target =>
    cases target with
    | none => decide
    | some target => exact length_encodeModRM_le (by simp)

/-- An encodable instruction takes at least one byte: there is nothing to read in no bytes. -/
theorem length_pos {i : Instruction} (hi : i.IsEncodable) : 0 < i.length := by
  have h := decode_encode hi []
  rcases hlength : i.encode with _ | ⟨b, bs⟩
  · rw [hlength] at h
    cases h
  · rw [length, hlength]
    exact Nat.succ_pos _

end Instruction

end Dynarec.Host
