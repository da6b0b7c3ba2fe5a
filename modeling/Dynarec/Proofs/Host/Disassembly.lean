import Dynarec.Proofs.Host.Length

/-!
# Disassembly

`disassemble` reads a piece of code from its first byte to its last, one instruction after another,
and lists the instructions with their offsets. The bytes of encodable instructions, one after
another, are disassembled into those instructions (`disassembleFrom_encode`).

An instruction comes back **as** what was encoded (`Instruction.ReadsAs`): the same operation on the
same operands, with the bits of its immediate operand that the operation computes with. The
immediate operand of a 64 bit operation has 32 bits only, so it comes back if it is the sign
extension of those.
-/

namespace Dynarec.Host

/-! ### Reading code to its end -/

/-- An **entry** of a disassembly: an instruction and the offset at which it starts. -/
structure Entry where
  offset : Nat
  instruction : Instruction
  deriving DecidableEq

/-- Reads code, the first byte of which is at an offset, **to its end**. -/
def disassembleFrom (offset : Nat) : List Byte → Option (List Entry)
  | [] => some []
  | b :: bytes =>
    match decode (b :: bytes) with
    | none => none
    | some (i, n) =>
      (disassembleFrom (offset + n) (bytes.drop (n - 1))).map (⟨offset, i⟩ :: ·)
  termination_by code => code.length
  decreasing_by simp only [List.length_drop, List.length_cons]; omega

/-- **Disassembles** code. -/
def disassemble (code : List Byte) : Option (List Entry) := disassembleFrom 0 code

namespace Instruction

/-- The bytes of an instruction are read as one entry, whatever follows them. -/
theorem disassembleFrom_encode {i : Instruction} (hi : i.IsEncodable) (offset : Nat)
    (rest : List Byte) :
    disassembleFrom offset (i.encode ++ rest) =
      (disassembleFrom (offset + i.length) rest).map (⟨offset, i.canonical⟩ :: ·) := by
  have hdecode := decode_encode hi rest
  have hpos := length_pos hi
  rw [length] at hdecode hpos ⊢
  obtain ⟨b, bs, hbytes⟩ := List.exists_cons_of_length_pos hpos
  rw [hbytes] at hdecode ⊢
  rw [List.cons_append] at hdecode ⊢
  rw [disassembleFrom, hdecode]
  simp

/-! ### What is read back -/

/-- The immediate operand, reduced to the bits that the operation computes with. -/
def immediate? : Instruction → Option Nat
  | mov size _ (.immediate v) => some (v.setWidth size.bits).toNat
  | alu _ size _ (.immediate v) => some (v.setWidth size.bits).toNat
  | test size _ (.immediate v) => some (v.setWidth size.bits).toNat
  | _ => none

/-- The instruction with another immediate operand, if it has one. -/
def withImmediate (v : HostWord) : Instruction → Instruction
  | mov size dst (.immediate _) => mov size dst (.immediate v)
  | alu op size dst (.immediate _) => alu op size dst (.immediate v)
  | test size dst (.immediate _) => test size dst (.immediate v)
  | i => i

/-- Whether an instruction **is read as** another one: the two are the same but for their immediate
operands, and these agree in all bits of the operand size if the encoding holds them. -/
structure ReadsAs (i j : Instruction) : Prop where
  /-- The same operation, operand size, registers and memory operand. -/
  same : j.withImmediate 0 = i.withImmediate 0
  immediate : i.FitsImmediate → j.immediate? = i.immediate?

/-- The bytes of an immediate operand hold all bits that the operation computes with, but for a 64
bit operation on a constant that is no sign extension of 32 bits. -/
theorem setWidth_signedLow_immediateBytes (size : Size) (v : HostWord)
    (h : size = .qword → fitsSigned 32 v = true) :
    (signedLow (8 * size.immediateBytes) v).setWidth size.bits = v.setWidth size.bits := by
  cases size with
  | qword =>
    have hv : signedLow 32 v = v := signedLow_eq_of_fitsSigned (h rfl) (by decide) (by decide)
    exact congrArg (BitVec.setWidth 64) hv
  | _ => exact setWidth_signedLow (by decide) (by decide) v

theorem readsAs_canonical (i : Instruction) : i.ReadsAs i.canonical where
  same := by
    cases i with
    | mov size dst src | alu op size dst src | test size dst src => cases src <;> rfl
    | _ => rfl
  immediate hfits := by
    cases i with
    | mov size dst src =>
      cases src with
      | register r => rfl
      | immediate v =>
        have hv := setWidth_signedLow (by cases size <;> decide) (Nat.le_refl size.bits) v
        exact congrArg (fun w => some w.toNat) hv
    | alu op size dst src | test size dst src =>
      cases src with
      | register r => rfl
      | immediate v =>
        have hv := setWidth_signedLow_immediateBytes size v fun hsize => by
          subst hsize
          exact hfits
        exact congrArg (fun w => some w.toNat) hv
    | _ => rfl

/-- Instructions that are read as the same one **are the same**, up to what is not encoded of their
immediate operands. -/
theorem ReadsAs.trans_symm {i j k : Instruction} (h : i.ReadsAs k) (h' : j.ReadsAs k) :
    i.withImmediate 0 = j.withImmediate 0 ∧
      (i.FitsImmediate → j.FitsImmediate → i.immediate? = j.immediate?) :=
  ⟨h.same.symm.trans h'.same, fun hi hj => (h.immediate hi).symm.trans (h'.immediate hj)⟩

end Instruction

end Dynarec.Host
