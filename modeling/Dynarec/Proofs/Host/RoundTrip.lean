import Dynarec.Host.Program

/-!
# Reading encoded instructions back

`decode` undoes `Instruction.encode`: the bytes of an encodable instruction, whatever follows them,
are read as that instruction and with its length (`decode_encode`). The one thing that is not kept
is the representative of an immediate operand, of which only the encoded bytes are known; it comes
back sign-extended (`Instruction.canonical`).

The proof follows the layout of an instruction: what stands in front of the opcode (`Lead`), the
ModRM byte and the memory operand it announces, and the opcode itself.
-/

namespace Dynarec.Host

/-! ### Bytes -/

/-- A word reduced to its lowest bits and extended with their sign. -/
def signedLow (n : Nat) (v : HostWord) : HostWord := (v.setWidth n).signExtend 64

/-- The lowest bytes of a word make up its low bits again, also when they are fewer than the word
has. Immediates and displacements are written and read back in this way. -/
theorem wordLE_bytesLE_setWidth {w : Nat} (count : Nat) (v : BitVec w) :
    wordLE (8 * count) (bytesLE count v) = v.setWidth (8 * count) := by
  apply BitVec.eq_of_getLsbD_eq
  intro i hi
  rw [getLsbD_wordLE_bytesLE]
  simp [hi]

/-- Reading the lowest bytes of a word as a signed number gives the sign extension of its low bits,
whatever stands behind those bytes. -/
theorem signed?_bytesLE {w : Nat} (count : Nat) (v : BitVec w) (rest : List Byte) :
    signed? count (bytesLE count v ++ rest) = some ((v.setWidth (8 * count)).signExtend 64) := by
  rw [signed?, takeExactly_append (length_bytesLE count v), Option.map_some,
    wordLE_bytesLE_setWidth]

/-- The low bits of a sign extension are a sign extension to fewer bits, so it does not matter
whether a constant is extended to the size of the operation or beyond it. -/
theorem low_signExtend {n k w : Nat} (x : BitVec n) (h : k ≤ w) :
    (x.signExtend w).setWidth k = x.signExtend k := by
  apply BitVec.eq_of_getLsbD_eq
  intro i hi
  rw [BitVec.getLsbD_setWidth, BitVec.getLsbD_signExtend, BitVec.getLsbD_signExtend]
  simp [hi, show i < w by omega]

/-- Extending a number in two steps is extending it at once: the low bits that are kept in between
have the sign. -/
theorem signExtend_low_signExtend {n k w : Nat} {x : BitVec n} (hn : n ≤ k) (hk : k ≤ w) :
    ((x.signExtend w).setWidth k).signExtend w = x.signExtend w := by
  apply BitVec.eq_of_toInt_eq
  rw [low_signExtend x hk, BitVec.toInt_signExtend_of_le hk, BitVec.toInt_signExtend_of_le hn,
    BitVec.toInt_signExtend_of_le (Nat.le_trans hn hk)]

/-- The low bits of an immediate operand that its encoding keeps are those of the operand, which is
all that an operation of that width looks at. -/
theorem setWidth_signedLow {n w : Nat} (hn : n ≤ 64) (hw : w ≤ n) (v : HostWord) :
    (signedLow n v).setWidth w = v.setWidth w := by
  apply BitVec.eq_of_getLsbD_eq
  intro k hk
  simp only [signedLow, BitVec.getLsbD_setWidth, BitVec.getLsbD_signExtend]
  simp [hk, show k < n by omega, show k < 64 by omega]

/-! ### Operands -/

namespace Memory

/-- No memory operand is written with the mode bits `11`, which announce a register instead of
memory. -/
theorem mode_bits_ne (m : Memory) : m.mode.bits ≠ 3 := by cases m.mode <;> decide

/-- The displacement is read back in the mode in which it was written, as none, one byte or four of
them. -/
theorem displacement?_encode (m : Memory) (rest : List Byte) :
    displacement? m.mode.bits (m.displacementBytes ++ rest) =
      some (m.displacement, m.displacementBytes.length) := by
  have h8 := signed?_bytesLE 1 m.displacement rest
  have h32 := signed?_bytesLE 4 m.displacement rest
  rw [displacementBytes]
  by_cases hnone : m.displacement = 0 ∧ m.base.low ≠ 5
  · have hmode : m.mode = .none := if_pos hnone
    simp [hmode, Mode.bits, displacement?, hnone.1]
  · by_cases hbyte : (m.displacement.setWidth 8).signExtend 32 = m.displacement
    · have hmode : m.mode = .byte := by rw [mode, if_neg hnone, if_pos hbyte]
      simp only [hmode, Mode.bits, displacement?, h8, length_bytesLE]
      simp [low_signExtend, hbyte]
    · have hmode : m.mode = .dword := by rw [mode, if_neg hnone, if_neg hbyte]
      simp only [hmode, Mode.bits, displacement?, h32, length_bytesLE]
      simp [low_signExtend]

/-- Without a displacement the base register has a field of its own: the field that would stand for
`rbp` or `r13` means an address without a base, so those two are always written with a
displacement. -/
theorem base_ne_of_mode {m : Memory} (h : m.mode.bits = 0) : m.base.low ≠ 5 := by
  rw [mode] at h
  split at h
  · exact ‹_ ∧ _›.2
  · split at h <;> exact absurd h (by decide)

/-- A register other than `rsp` that needs no fourth bit does not collide with the field that says
that there is no index. -/
theorem index_low_ne_four {r : Register} (hr : r ≠ .rsp) (hx : r.isExtended = false) :
    r.low ≠ 4 := by
  cases r <;> first | exact absurd rfl hr | exact absurd hx (by decide) | decide

end Memory

section Operands

variable (a : BitVec 2) (b c : BitVec 3)

/-- The fields of a byte that consists of a two bit and two three bit fields. -/
theorem fields_append :
    (a ++ b ++ c : Byte).extractLsb' 6 2 = a ∧ (a ++ b ++ c : Byte).extractLsb' 3 3 = b ∧
      (a ++ b ++ c : Byte).extractLsb' 0 3 = c := by
  refine ⟨?_, ?_, ?_⟩ <;> revert a b c <;> decide

end Operands

namespace Place

/-- The operands after an opcode are read back, provided that the REX byte holds their fourth bits
and that no operand has `rsp` as its index, for which there is no encoding. -/
theorem operands?_encode (rex : Rex) (reg : BitVec 3) (place : Place)
    (hx : rex.x = place.indexIsExtended) (hb : rex.b = place.baseIsExtended)
    (hindex : ∀ m, place = .memory m → m.index ≠ some .rsp) (rest : List Byte) :
    operands? rex (place.encode reg ++ rest) = some ⟨reg, place, (place.encode reg).length⟩ := by
  cases place with
  | register r =>
    obtain ⟨hmode, hreg, hfield⟩ := fields_append 3#2 reg r.low
    simp only [baseIsExtended] at hb
    simp [encode, operands?, hmode, hreg, hfield, hb]
  | memory m =>
    have hdisp := m.displacement?_encode rest
    have hne := m.mode_bits_ne
    simp only [baseIsExtended] at hb
    simp only [indexIsExtended] at hx
    specialize hindex m rfl
    by_cases hsib : m.hasSib = true
    · -- an index: all registers but `rsp` have a field that is told from that of no index
      obtain ⟨hmode, hreg, hfield⟩ := fields_append m.mode.bits reg 4#3
      obtain ⟨hscale, hidx, hbase⟩ :=
        fields_append 0#2 ((m.index.map Register.low).getD 4) m.base.low
      have hbase5 : ¬ (m.mode.bits = 0 ∧ m.base.low = 5) := fun h => m.base_ne_of_mode h.1 h.2
      have hregister : (if (m.index.map Register.low).getD 4 = 4 ∧ rex.x = false then none
          else some (Register.ofField rex.x ((m.index.map Register.low).getD 4))) = m.index := by
        cases hi : m.index with
        | none => simp [hx, hi]
        | some r =>
          have hr : r ≠ .rsp := fun h => hindex (by rw [hi, h])
          have hx' : rex.x = r.isExtended := by simp [hx, hi]
          rw [if_neg (fun h => Memory.index_low_ne_four hr (hx' ▸ h.2) h.1), hx']
          simp
      simp only [encode, Memory.encode, hsib, if_true, List.cons_append, operands?, hmode, hreg,
        hfield, hne, if_false, memory?, hscale, hidx, hbase, hbase5, hdisp, hregister, hb]
      simp
    · -- no index, and no base that needs one
      obtain ⟨hmode, hreg, hfield⟩ := fields_append m.mode.bits reg m.base.low
      have hnone : m.index = none := by
        cases hi : m.index <;> simp_all [Memory.hasSib]
      have hlow : m.base.low ≠ 4 := fun h => hsib (by simp [Memory.hasSib, h])
      have hbase5 : ¬ (m.mode.bits = 0 ∧ m.base.low = 5) := fun h => m.base_ne_of_mode h.1 h.2
      simp only [encode, Memory.encode, hsib, Bool.false_eq_true, if_false, List.cons_append,
        operands?, hmode, hreg, hfield, hne, memory?, hlow, hbase5, hdisp, hb]
      cases m
      simp_all

end Place

/-! ### In front of the opcode -/

/-- What an encoded instruction has in front of its opcode. -/
def leadOf (size : Size) (rex : Rex) (forced : Bool) : Lead :=
  ⟨size = .word, if rex.any || forced then some rex else none⟩

/-- The number of bytes in front of the opcode. -/
def leadLength (size : Size) (rex : Rex) (forced : Bool) : Nat :=
  (size.marker ++ rex.encode forced).length

namespace Lead

variable {size : Size} {rex : Rex} {forced : Bool}

/-- The fields of a REX byte are read back whether or not the byte is written, since it is left out
only if all of them are zero. -/
@[simp]
theorem fields_leadOf : (leadOf size rex forced).fields = rex := by
  obtain ⟨w, r, x, b⟩ := rex
  cases w <;> cases r <;> cases x <;> cases b <;> cases forced <;> rfl

/-- The size of an operation that is not on bytes is read off its marker and its REX byte. -/
theorem size_leadOf (hw : rex.w = decide (size = .qword)) (hsize : size ≠ .byte) :
    (leadOf size rex forced).size = size := by
  rw [Lead.size, fields_leadOf, hw]
  cases size <;> simp [leadOf] at hsize ⊢

/-- With a REX byte where it takes one, a register field names the low byte of its register. Without
one, the fields of `rsp`, `rbp`, `rsi` and `rdi` would name the second bytes of other registers. -/
theorem names_leadOf {named : Size} {r : Register}
    (h : named = .byte → r.needsRexAsByte = true → forced = true) :
    (leadOf size rex forced).names named r = true := by
  by_cases hsize : named = .byte
  · cases hr : r.needsRexAsByte
    · simp [names, hr]
    · simp [names, leadOf, h hsize hr]
  · simp [names, hsize]

end Lead

/-- A REX byte is told from its upper half, and its lower half gives back the four fields. -/
theorem Rex.ofByte?_byte (rex : Rex) : Rex.ofByte? rex.byte = some rex := by
  obtain ⟨w, r, x, b⟩ := rex
  cases w <;> cases r <;> cases x <;> cases b <;> rfl

/-- A REX byte is no operand size marker. -/
theorem Rex.byte_ne_marker (rex : Rex) : rex.byte ≠ 0x66 := by
  obtain ⟨w, r, x, b⟩ := rex
  cases w <;> cases r <;> cases x <;> cases b <;> decide

/-- A byte that neither selects an operand size nor is a REX byte starts the opcode, and what stands
in front of it is handed to the decoder of the opcode as its **lead**. -/
theorem decode_lead (size : Size) (rex : Rex) (forced : Bool) {opcode : Byte} (bytes : List Byte)
    (hmarker : opcode ≠ 0x66) (hrex : Rex.ofByte? opcode = none) :
    decode (size.marker ++ rex.encode forced ++ opcode :: bytes) =
      (decodeOpcode (leadOf size rex forced) (opcode :: bytes)).map fun (i, n) =>
        (i, n + leadLength size rex forced) := by
  -- what follows the marker, with and without a REX byte
  have hafter (word : Bool) :
      decodeAfterMarker word (rex.encode forced ++ opcode :: bytes) =
        (decodeOpcode ⟨word, if rex.any || forced then some rex else none⟩
          (opcode :: bytes)).map fun (i, n) => (i, n + (rex.encode forced).length) := by
    cases h : rex.any || forced
    · simp [Rex.encode, h, decodeAfterMarker, hrex]
    · simp [Rex.encode, h, decodeAfterMarker, Rex.ofByte?_byte]
  -- neither a REX byte nor the opcode is taken for the marker
  have hnone (h : size ≠ .word) :
      decode (rex.encode forced ++ opcode :: bytes) =
        decodeAfterMarker false (rex.encode forced ++ opcode :: bytes) := by
    cases h : rex.any || forced
    · simp only [Rex.encode, h, Bool.false_eq_true, if_false, List.nil_append]
      exact if_neg hmarker
    · simp only [Rex.encode, h, if_true, List.cons_append, List.nil_append]
      exact if_neg rex.byte_ne_marker
  by_cases hword : size = .word
  · subst hword
    simp only [Size.marker, List.cons_append, List.nil_append, decode, if_true, hafter, leadOf,
      leadLength, decide_true, Option.map_map]
    rfl
  · have hm : size.marker = [] := by cases size <;> first | rfl | exact absurd rfl hword
    simp only [hm, List.nil_append, hnone hword, hafter, leadOf, leadLength, hword, decide_false]

/-- An opcode of one byte is looked up in the first table, unless it is the byte that leads to the
second one. -/
theorem decodeOpcode_first (l : Lead) {opcode : Byte} (bytes : List Byte) (h : opcode ≠ 0x0F) :
    decodeOpcode l (opcode :: bytes) =
      (decodeFirstTable l opcode bytes).map fun (i, n) => (i, n + 1) := if_neg h

/-- An opcode of two bytes is looked up in the second table. -/
theorem decodeOpcode_second (l : Lead) (opcode : Byte) (bytes : List Byte) :
    decodeOpcode l (0x0F :: opcode :: bytes) =
      (decodeSecondTable l opcode bytes).map fun (i, n) => (i, n + 2) := rfl

/-! ### Opcodes with a ModRM byte -/

section ModRM

variable (size : Size) (reg : RegField) (place : Place)

/-- The REX byte of an instruction with a ModRM byte. -/
def modRMRex : Rex := ⟨size = .qword, reg.isExtended, place.indexIsExtended, place.baseIsExtended⟩

/-- Whether an instruction on low bytes takes a REX byte in any case. -/
def modRMForced (byteRegisters : Bool) : Bool :=
  byteRegisters && (reg.needsRexAsByte || place.needsRexAsByte)

/-- What stands in front of the opcode of an instruction with a ModRM byte. -/
def modRMLead (byteRegisters : Bool) : Lead :=
  leadOf size (modRMRex size reg place) (modRMForced reg place byteRegisters)

/-- An encoding with a ModRM byte has three parts: what stands in front of the opcode, the opcode,
and the operands with the constant after them. -/
theorem encodeModRM_eq (byteRegisters : Bool) (opcode immediate : List Byte) :
    encodeModRM size byteRegisters opcode reg place immediate =
      size.marker ++ (modRMRex size reg place).encode (modRMForced reg place byteRegisters) ++
        (opcode ++ place.encode reg.bits ++ immediate) := by
  simp [encodeModRM, modRMRex, modRMForced]

variable {size reg place}

/-- An opcode of the first table with a ModRM byte is read back if its entry in the table reads its
operands back, however many bytes stand in front of it. -/
theorem decode_encodeModRM {byteRegisters : Bool} {opcode : Byte} {immediate rest : List Byte}
    {i : Instruction} {n : Nat} (hmarker : opcode ≠ 0x66) (hrex : Rex.ofByte? opcode = none)
    (htable : opcode ≠ 0x0F)
    (h : decodeFirstTable (modRMLead size reg place byteRegisters) opcode
      (place.encode reg.bits ++ (immediate ++ rest)) = some (i, n))
    (hn : n = (place.encode reg.bits).length + immediate.length) :
    decode (encodeModRM size byteRegisters [opcode] reg place immediate ++ rest) =
      some (i, (encodeModRM size byteRegisters [opcode] reg place immediate).length) := by
  rw [encodeModRM_eq]
  simp only [List.append_assoc, List.cons_append, List.nil_append]
  rw [← List.append_assoc size.marker, decode_lead _ _ _ _ hmarker hrex,
    decodeOpcode_first _ _ htable]
  simp only [modRMLead] at h
  simp only [h, Option.map_some, leadLength, List.length_append, List.length_cons, hn]
  congr 2
  omega

/-- An opcode of the second table with a ModRM byte is read back if its entry in that table reads
its operands back. -/
theorem decode_encodeModRM_second {byteRegisters : Bool} {opcode : Byte}
    {immediate rest : List Byte} {i : Instruction} {n : Nat}
    (h : decodeSecondTable (modRMLead size reg place byteRegisters) opcode
      (place.encode reg.bits ++ (immediate ++ rest)) = some (i, n))
    (hn : n = (place.encode reg.bits).length + immediate.length) :
    decode (encodeModRM size byteRegisters [0x0F, opcode] reg place immediate ++ rest) =
      some (i, (encodeModRM size byteRegisters [0x0F, opcode] reg place immediate).length) := by
  rw [encodeModRM_eq]
  simp only [List.append_assoc, List.cons_append, List.nil_append]
  rw [← List.append_assoc size.marker, decode_lead _ _ _ _ (by decide) (by decide),
    decodeOpcode_second]
  simp only [modRMLead] at h
  simp only [h, Option.map_some, leadLength, List.length_append, List.length_cons, hn]
  congr 2
  omega

end ModRM

/-- Whether a memory operand can be encoded. -/
def Place.IsEncodable (place : Place) : Prop := ∀ m, place = .memory m → m.index ≠ some .rsp

section Forms

variable {size : Size} {place : Place} {byteRegisters : Bool}

/-- The fourth bits of the operands arrive at the decoder of the operands. -/
theorem fields_modRMLead {reg : RegField} :
    (modRMLead size reg place byteRegisters).fields = modRMRex size reg place :=
  Lead.fields_leadOf

/-- The size of the operation arrives at the decoder of the operands, unless it is that of a byte,
which the opcode says. -/
theorem size_modRMLead {reg : RegField} (h : size ≠ .byte) :
    (modRMLead size reg place byteRegisters).size = size := Lead.size_leadOf rfl h

/-- Where the lowest bit of the opcode tells bytes from the larger sizes, the size is read back from
the opcode and its lead together. -/
theorem sizeOf_modRMLead {reg : RegField} (opcode : Byte) (h : opcode.getLsbD 0 = false) :
    (modRMLead size reg place byteRegisters).sizeOf (Instruction.sized size opcode) = size := by
  have hnext : (opcode + 1).getLsbD 0 = true := by revert h; revert opcode; decide
  cases size
  case byte => simp only [Lead.sizeOf, Instruction.sized, h, Bool.false_eq_true, if_false]
  all_goals
    simp only [Lead.sizeOf, Instruction.sized, hnext, if_true]
    exact size_modRMLead (by decide)

/-- An opcode whose register field holds a register gives back the register and the other operand,
as the instruction that the table builds from them. -/
theorem decodeRegisterForm_encode {r : Register} {build : Register → Place → Option Instruction}
    {i : Instruction} {rest : List Byte} (hbyte : size = .byte → byteRegisters = true)
    (hplace : place.IsEncodable) (hbuild : build r place = some i) :
    decodeRegisterForm (modRMLead size (.register r) place byteRegisters) size
        (place.encode r.low ++ rest) build =
      some (i, (place.encode r.low).length) := by
  have hr : (modRMLead size (.register r) place byteRegisters).names size r = true :=
    Lead.names_leadOf fun hs hn => by simp [modRMForced, RegField.needsRexAsByte, hbyte hs, hn]
  have hops := Place.operands?_encode (modRMRex size (.register r) place) r.low place rfl rfl
    hplace rest
  have hfield : Register.ofField (modRMRex size (.register r) place).r r.low = r :=
    Register.ofField_low r
  rw [decodeRegisterForm, fields_modRMLead, hops, Option.bind_some]
  cases place with
  | memory m => simp only [hfield, hr, Bool.and_self, if_true, hbuild, Option.map_some]
  | register r' =>
    have hr' : (modRMLead size (.register r) (.register r') byteRegisters).names size r' = true :=
      Lead.names_leadOf fun hs hn => by simp [modRMForced, Place.needsRexAsByte, hbyte hs, hn]
    simp only [hfield, hr, hr', Bool.and_self, if_true, hbuild, Option.map_some]

/-- An opcode whose register field holds an operation number gives back the number, the register and
the constant after it. -/
theorem decodeGroupForm_encode {d : BitVec 3} {r : Register} {count : Nat}
    {build : BitVec 3 → Register → HostWord → Option Instruction} {i : Instruction}
    {immediate rest : List Byte} {v : HostWord} (hbyte : size = .byte → byteRegisters = true)
    (himmediate : signed? count (immediate ++ rest) = some v) (hbuild : build d r v = some i) :
    decodeGroupForm (modRMLead size (.digit d) (.register r) byteRegisters) size count
        ((Place.register r).encode d ++ (immediate ++ rest)) build =
      some (i, ((Place.register r).encode d).length + count) := by
  have hr : (modRMLead size (.digit d) (.register r) byteRegisters).names size r = true :=
    Lead.names_leadOf fun hs hn => by simp [modRMForced, Place.needsRexAsByte, hbyte hs, hn]
  have hops := Place.operands?_encode (modRMRex size (.digit d) (.register r)) d (.register r) rfl
    rfl (fun m h => by cases h) (immediate ++ rest)
  rw [decodeGroupForm, fields_modRMLead, hops, Option.bind_some]
  simp only [hr, if_true, List.drop_left, himmediate, Option.bind_some, hbuild, Option.map_some]

end Forms

/-! ### Opcodes that hold a register -/

/-- The fields of an opcode that holds a register in its low three bits. -/
theorem fields_shortForm (opcode : BitVec 5) (low : BitVec 3) :
    (opcode ++ low : Byte).extractLsb' 3 5 = opcode ∧
      (opcode ++ low : Byte).extractLsb' 0 3 = low := by
  revert opcode low
  decide

/-- What stands in front of an opcode that holds a register. -/
def shortFormLead (size : Size) (r : Register) : Lead :=
  leadOf size ⟨size = .qword, false, false, r.isExtended⟩ (size = .byte && r.needsRexAsByte)

/-- An opcode of the first table that **holds a register** is read back if its entry reads the
constant after it back. -/
theorem decode_encodeShortForm {size : Size} {opcode : BitVec 5} {r : Register}
    {immediate rest : List Byte} {i : Instruction} (hmarker : (opcode ++ r.low : Byte) ≠ 0x66)
    (hrex : Rex.ofByte? (opcode ++ r.low) = none) (htable : (opcode ++ r.low : Byte) ≠ 0x0F)
    (h : decodeFirstTable (shortFormLead size r) (opcode ++ r.low) (immediate ++ rest) =
      some (i, immediate.length)) :
    decode (encodeShortForm size opcode r immediate ++ rest) =
      some (i, (encodeShortForm size opcode r immediate).length) := by
  simp only [shortFormLead] at h
  rw [encodeShortForm]
  simp only [List.append_assoc, List.cons_append, List.nil_append]
  rw [← List.append_assoc size.marker, decode_lead _ _ _ _ hmarker hrex,
    decodeOpcode_first _ _ htable, h]
  simp only [Option.map_some, leadLength, List.length_append, List.length_cons]
  congr 2
  omega

/-- An opcode that holds a register has the REX byte that its register takes to be named. -/
theorem names_shortFormLead (size : Size) (r : Register) :
    (shortFormLead size r).names size r = true :=
  Lead.names_leadOf fun hs hr => by simp [hs, hr]

/-- The three bits in the opcode and the fourth one in the REX byte are those of the register. -/
theorem register_shortFormLead (size : Size) (r : Register) :
    Register.ofField (shortFormLead size r).fields.b r.low = r := by
  simp [shortFormLead]

/-- A move of a constant in the form that holds its register, with as many bytes for the constant as
the operation is wide. -/
theorem decode_movShort {size : Size} {r : Register} {count : Nat} (v : HostWord) (rest : List Byte)
    (hcount : count = size.bits / 8) :
    decode (encodeShortForm size (if size = .byte then 0x16 else 0x17) r (bytesLE count v) ++
      rest) =
      some (.mov size r (.immediate (signedLow (8 * count) v)),
        (encodeShortForm size (if size = .byte then 0x16 else 0x17) r
          (bytesLE count v)).length) := by
  have hv := signed?_bytesLE count v rest
  have hnames := names_shortFormLead size r
  have hreg := register_shortFormLead size r
  apply decode_encodeShortForm
  · cases size <;> cases r <;> decide
  · cases size <;> cases r <;> decide
  · cases size <;> cases r <;> decide
  · obtain ⟨hrow, hlow⟩ := fields_shortForm (if size = .byte then 0x16 else 0x17) r.low
    rw [decodeFirstTable]
    simp only [hrow, hlow, hreg]
    by_cases hsize : size = .byte
    · subst hsize hcount
      simp [decodeMovImmediate, hnames, signedLow]
      exact hv
    · have hl : (shortFormLead size r).size = size := Lead.size_leadOf rfl hsize
      simp [hsize, hl, decodeMovImmediate, hnames, hv, signedLow, ← hcount]

/-! ### Instructions -/

namespace Instruction

/-- The instruction with the immediate operand that the host computes with: the sign extension of
the bytes that are encoded. -/
def canonical : Instruction → Instruction
  | mov size dst (.immediate v) => mov size dst (.immediate (signedLow size.bits v))
  | alu op size dst (.immediate v) =>
    alu op size dst (.immediate (signedLow (8 * size.immediateBytes) v))
  | test size dst (.immediate v) =>
    test size dst (.immediate (signedLow (8 * size.immediateBytes) v))
  | i => i

/-- Whether an immediate operand is the sign extension of the bytes that encode it, as far as the
operation looks at it. Only the constants of 64 bit operations can fail this. -/
def FitsImmediate : Instruction → Prop
  | alu _ .qword _ (.immediate v) => fitsSigned 32 v = true
  | test .qword _ (.immediate v) => fitsSigned 32 v = true
  | _ => True

/-- A constant that fits a signed number of some width is kept by every encoding that has at least
that width. -/
theorem signedLow_eq_of_fitsSigned {n k : Nat} {v : HostWord} (h : fitsSigned n v = true)
    (hn : n ≤ k) (hk : k ≤ 64) : signedLow k v = v := by
  have hv : (v.setWidth n).signExtend 64 = v := by simpa [fitsSigned] using h
  rw [signedLow, ← hv, signExtend_low_signExtend hn hk]

/-- A byte that can be the opcode of an instruction of the first table. -/
def IsOpcode (opcode : Byte) : Prop :=
  opcode ≠ 0x66 ∧ Rex.ofByte? opcode = none ∧ opcode ≠ 0x0F

instance (opcode : Byte) : Decidable (IsOpcode opcode) := inferInstanceAs (Decidable (_ ∧ _ ∧ _))

section Tables

variable {size : Size} {byteRegisters : Bool} {opcode : Byte} {i : Instruction} {rest : List Byte}

/-- An instruction of the first table on a register and a register or memory is read back if the
entry of its opcode builds it. -/
theorem decode_registerForm {r : Register} {place : Place}
    {build : Register → Place → Option Instruction} (hopcode : IsOpcode opcode)
    (htable : ∀ bytes, decodeFirstTable (modRMLead size (.register r) place byteRegisters)
      opcode bytes =
      decodeRegisterForm (modRMLead size (.register r) place byteRegisters) size bytes build)
    (hbyte : size = .byte → byteRegisters = true) (hplace : place.IsEncodable)
    (hbuild : build r place = some i) :
    decode (encodeModRM size byteRegisters [opcode] (.register r) place [] ++ rest) =
      some (i, (encodeModRM size byteRegisters [opcode] (.register r) place []).length) := by
  obtain ⟨hmarker, hrex, hfirst⟩ := hopcode
  refine decode_encodeModRM hmarker hrex hfirst ?_ rfl
  rw [htable]
  exact decodeRegisterForm_encode hbyte hplace hbuild

/-- An instruction of the first table on a register and a constant is read back, with the constant
extended from the bytes that are kept of it. -/
theorem decode_groupForm {d : BitVec 3} {r : Register} {count : Nat}
    {build : BitVec 3 → Register → HostWord → Option Instruction} {immediate : List Byte}
    {v : HostWord} (hopcode : IsOpcode opcode)
    (htable : ∀ bytes,
      decodeFirstTable (modRMLead size (.digit d) (.register r) byteRegisters) opcode
        bytes =
      decodeGroupForm (modRMLead size (.digit d) (.register r) byteRegisters) size
        count bytes build)
    (hbyte : size = .byte → byteRegisters = true) (hlength : immediate.length = count)
    (himmediate : signed? count (immediate ++ rest) = some v) (hbuild : build d r v = some i) :
    decode (encodeModRM size byteRegisters [opcode] (.digit d) (.register r) immediate ++ rest) =
      some (i, (encodeModRM size byteRegisters [opcode] (.digit d) (.register r)
        immediate).length) := by
  obtain ⟨hmarker, hrex, hfirst⟩ := hopcode
  refine decode_encodeModRM hmarker hrex hfirst ?_ rfl
  rw [htable, hlength]
  exact decodeGroupForm_encode hbyte himmediate hbuild

end Tables

/-- An opcode comes in two forms, one for bytes and the next one for all larger sizes. -/
theorem sized_cases (size : Size) {opcode : Byte} :
    sized size opcode = opcode ∨ sized size opcode = opcode + 1 := by
  cases size
  · exact Or.inl rfl
  all_goals exact Or.inr rfl

/-- The opcodes in use are neither markers, nor REX bytes, nor the byte that leads to the second
table. -/
theorem isOpcode_sized (size : Size) {opcode : Byte}
    (h : opcode ∈ [0x84, 0x88, 0x8A, 0xC0, 0xD0, 0xF6]) : IsOpcode (sized size opcode) := by
  revert opcode
  cases size <;> decide

section Dispatch

variable {l : Lead} {size : Size} {opcode : Byte} (bytes : List Byte)

/-- Moves from a register, to a register or to memory. -/
theorem firstTable_mov (hopcode : opcode = 0x88 ∨ opcode = 0x88 + 1)
    (h : l.sizeOf opcode = size) :
    decodeFirstTable l opcode bytes =
      decodeRegisterForm l size bytes fun r place =>
        match place with
        | .register dst => some (mov size dst (.register r))
        | .memory m => some (store size m r) := by
  subst h
  rcases hopcode with rfl | rfl <;> rfl

/-- Moves to a register, from memory or from a register. -/
theorem firstTable_load (hopcode : opcode = 0x8A ∨ opcode = 0x8A + 1)
    (h : l.sizeOf opcode = size) :
    decodeFirstTable l opcode bytes =
      decodeRegisterForm l size bytes fun r place =>
        match place with
        | .register src => some (mov size r (.register src))
        | .memory m => some (load size r m) := by
  subst h
  rcases hopcode with rfl | rfl <;> rfl

theorem firstTable_test (hopcode : opcode = 0x84 ∨ opcode = 0x84 + 1)
    (h : l.sizeOf opcode = size) :
    decodeFirstTable l opcode bytes =
      decodeRegisterForm l size bytes fun r place =>
        match place with
        | .register dst => some (test size dst (.register r))
        | .memory _ => none := by
  subst h
  rcases hopcode with rfl | rfl <;> rfl

/-- The arithmetic operations on two registers, whose opcodes hold the number of the operation. -/
theorem firstTable_alu (op : AluOp)
    (hopcode : opcode = 0#2 ++ op.digit ++ 0#3 ∨ opcode = 0#2 ++ op.digit ++ 0#3 + 1)
    (h : l.sizeOf opcode = size) :
    decodeFirstTable l opcode bytes =
      decodeRegisterForm l size bytes fun r place =>
        match place with
        | .register dst => some (alu op size dst (.register r))
        | .memory _ => none := by
  subst h
  rcases hopcode with rfl | rfl <;> cases op <;> rfl

theorem firstTable_lea (h : l.size = size) :
    decodeFirstTable l 0x8D bytes =
      decodeRegisterForm l size bytes fun r place =>
        match place with
        | .register _ => none
        | .memory m => some (lea size r m) := by
  subst h
  rfl

/-- Shifts and rotations by a constant amount. -/
theorem firstTable_shift (hopcode : opcode = 0xC0 ∨ opcode = 0xC0 + 1)
    (h : l.sizeOf opcode = size) :
    decodeFirstTable l opcode bytes =
      decodeGroupForm l size 1 bytes fun d r v => shift? size (v.setWidth 8) d r := by
  subst h
  rcases hopcode with rfl | rfl <;> rfl

/-- Shifts and rotations by one have an opcode of their own, without a constant after it. -/
theorem firstTable_shiftOne (hopcode : opcode = 0xD0 ∨ opcode = 0xD0 + 1)
    (h : l.sizeOf opcode = size) :
    decodeFirstTable l opcode bytes =
      decodeGroupForm l size 0 bytes fun d r _ => shift? size 1 d r := by
  subst h
  rcases hopcode with rfl | rfl <;> rfl

theorem firstTable_testImmediate (hopcode : opcode = 0xF6 ∨ opcode = 0xF6 + 1)
    (h : l.sizeOf opcode = size) :
    decodeFirstTable l opcode bytes =
      decodeGroupForm l size size.immediateBytes bytes fun d r v =>
        if d = 0 then some (test size r (.immediate v)) else none := by
  subst h
  rcases hopcode with rfl | rfl <;> rfl

theorem firstTable_aluByte :
    decodeFirstTable l 0x80 bytes =
      decodeGroupForm l .byte 1 bytes fun d r v => some (alu (.ofDigit d) .byte r (.immediate v)) :=
  rfl

/-- Arithmetic operations on a register and a constant that fits a signed byte. -/
theorem firstTable_aluShort (h : l.size = size) :
    decodeFirstTable l 0x83 bytes =
      decodeGroupForm l size 1 bytes fun d r v =>
        some (alu (.ofDigit d) size r (.immediate v)) := by
  subst h
  rfl

/-- Arithmetic operations on a register and a constant of the size of the operation, of which 64 bit
operations have the low half only. -/
theorem firstTable_aluImmediate (h : l.size = size) :
    decodeFirstTable l 0x81 bytes =
      decodeGroupForm l size size.immediateBytes bytes fun d r v =>
        some (alu (.ofDigit d) size r (.immediate v)) := by
  subst h
  rfl

theorem firstTable_movImmediate (h : l.size = size) :
    decodeFirstTable l 0xC7 bytes =
      decodeGroupForm l size size.immediateBytes bytes fun d r v =>
        if d = 0 then some (mov size r (.immediate v)) else none := by
  subst h
  rfl

end Dispatch

section RegisterForms

variable (size : Size) (dst src : Register) (rest : List Byte)

/-- **Moves** between registers are read back as they are. -/
theorem decode_mov_register :
    decode ((mov size dst (.register src)).encode ++ rest) =
      some (mov size dst (.register src), (mov size dst (.register src)).length) :=
  decode_registerForm (isOpcode_sized size (by decide))
    (fun bytes => firstTable_mov bytes (sized_cases size) (sizeOf_modRMLead _ (by decide)))
    (by simp)
    (fun m h => by cases h) rfl

/-- Stores are read back with their address, as long as `rsp` is no index in it. -/
theorem decode_store {m : Memory} (hm : m.index ≠ some .rsp) :
    decode ((store size m src).encode ++ rest) =
      some (store size m src, (store size m src).length) :=
  decode_registerForm (isOpcode_sized size (by decide))
    (fun bytes => firstTable_mov bytes (sized_cases size) (sizeOf_modRMLead _ (by decide)))
    (by simp)
    (fun m' h => by cases h; exact hm) rfl

/-- Loads are read back with their address, as long as `rsp` is no index in it. -/
theorem decode_load {m : Memory} (hm : m.index ≠ some .rsp) :
    decode ((load size dst m).encode ++ rest) = some (load size dst m, (load size dst m).length) :=
  decode_registerForm (isOpcode_sized size (by decide))
    (fun bytes => firstTable_load bytes (sized_cases size) (sizeOf_modRMLead _ (by decide)))
    (by simp)
    (fun m' h => by cases h; exact hm) rfl

theorem decode_lea {m : Memory} (hm : m.index ≠ some .rsp) (hsize : size ≠ .byte) :
    decode ((lea size dst m).encode ++ rest) = some (lea size dst m, (lea size dst m).length) :=
  decode_registerForm (by decide) (fun bytes => firstTable_lea bytes (size_modRMLead hsize))
    (fun h => absurd h hsize) (fun m' h => by cases h; exact hm) rfl

/-- Arithmetic operations on two registers are read back as they are. -/
theorem decode_alu_register (op : AluOp) :
    decode ((alu op size dst (.register src)).encode ++ rest) =
      some (alu op size dst (.register src), (alu op size dst (.register src)).length) :=
  decode_registerForm (by cases op <;> cases size <;> decide)
    (fun bytes => firstTable_alu bytes op (sized_cases size)
      (sizeOf_modRMLead _ (by cases op <;> decide))) (by simp)
    (fun m h => by cases h) rfl

theorem decode_test_register :
    decode ((test size dst (.register src)).encode ++ rest) =
      some (test size dst (.register src), (test size dst (.register src)).length) :=
  decode_registerForm (isOpcode_sized size (by decide))
    (fun bytes => firstTable_test bytes (sized_cases size) (sizeOf_modRMLead _ (by decide)))
    (by simp)
    (fun m h => by cases h) rfl

end RegisterForms

section ImmediateForms

variable (size : Size) (dst : Register) (v : HostWord) (rest : List Byte)

/-- Moves of a constant are read back as their **canonical** form, which has the bits of the
constant that are encoded. -/
theorem decode_mov_immediate :
    decode ((mov size dst (.immediate v)).encode ++ rest) =
      some ((mov size dst (.immediate v)).canonical, (mov size dst (.immediate v)).length) := by
  cases size with
  | byte => exact decode_movShort v rest rfl
  | word => exact decode_movShort v rest rfl
  | dword => exact decode_movShort v rest rfl
  | qword =>
    by_cases hv : fitsSigned 32 v = true
    · have hencode : (mov .qword dst (.immediate v)).encode =
          encodeModRM .qword false [0xC7] (.digit 0) (.register dst) (bytesLE 4 v) := if_pos hv
      have hcanonical : (mov .qword dst (.immediate v)).canonical =
          mov .qword dst (.immediate (signedLow 32 v)) := by
        rw [canonical, signedLow_eq_of_fitsSigned hv (by decide) (by decide),
          signedLow_eq_of_fitsSigned hv (by decide) (by decide)]
      rw [length, hencode, hcanonical]
      exact decode_groupForm (by decide)
        (fun bytes => firstTable_movImmediate bytes (size_modRMLead (by decide))) (by simp) rfl
        (signed?_bytesLE 4 v rest) rfl
    · have hencode : (mov .qword dst (.immediate v)).encode =
          encodeShortForm .qword 0x17 dst (bytesLE 8 v) := if_neg hv
      rw [length, hencode]
      exact decode_movShort v rest rfl

/-- Arithmetic operations with a constant have three encodings, by the size of the operation and of
the constant. Each is read back as the canonical form. -/
theorem decode_alu_immediate (op : AluOp) :
    decode ((alu op size dst (.immediate v)).encode ++ rest) =
      some ((alu op size dst (.immediate v)).canonical,
        (alu op size dst (.immediate v)).length) := by
  by_cases hsize : size = .byte
  · subst hsize
    exact decode_groupForm (by decide) (fun bytes => firstTable_aluByte bytes) (by simp) rfl
      (signed?_bytesLE 1 v rest) (by rw [AluOp.ofDigit_digit]; rfl)
  · by_cases hv : fitsSigned 8 v = true
    · have hencode : (alu op size dst (.immediate v)).encode =
          encodeModRM size (size = .byte) [0x83] (.digit op.digit) (.register dst)
            (bytesLE 1 v) := by
        simp [encode, encodeAluImmediate, hsize, hv]
      have hcanonical : (alu op size dst (.immediate v)).canonical =
          alu op size dst (.immediate (signedLow 8 v)) := by
        rw [canonical, signedLow_eq_of_fitsSigned hv (by cases size <;> decide)
            (by cases size <;> decide),
          signedLow_eq_of_fitsSigned hv (by decide) (by decide)]
      rw [length, hencode, hcanonical]
      exact decode_groupForm (by decide)
        (fun bytes => firstTable_aluShort bytes (size_modRMLead hsize)) (by simp) rfl
        (signed?_bytesLE 1 v rest) (by rw [AluOp.ofDigit_digit]; rfl)
    · have hencode : (alu op size dst (.immediate v)).encode =
          encodeModRM size (size = .byte) [0x81] (.digit op.digit) (.register dst)
            (bytesLE size.immediateBytes v) := by
        simp [encode, encodeAluImmediate, hsize, hv]
      rw [length, hencode]
      exact decode_groupForm (by decide)
        (fun bytes => firstTable_aluImmediate bytes (size_modRMLead hsize)) (by simp)
        (length_bytesLE _ _) (signed?_bytesLE size.immediateBytes v rest)
        (by rw [AluOp.ofDigit_digit]; rfl)

theorem decode_test_immediate :
    decode ((test size dst (.immediate v)).encode ++ rest) =
      some ((test size dst (.immediate v)).canonical, (test size dst (.immediate v)).length) :=
  decode_groupForm (isOpcode_sized size (by decide))
    (fun bytes => firstTable_testImmediate bytes (sized_cases size)
      (sizeOf_modRMLead _ (by decide))) (by simp)
    (length_bytesLE _ _) (signed?_bytesLE size.immediateBytes v rest) rfl

/-- Shifts and rotations are read back, those by one from the opcode that is made for them. -/
theorem decode_shift (op : ShiftOp) (amount : Byte) :
    decode ((shift op size dst amount).encode ++ rest) =
      some (shift op size dst amount, (shift op size dst amount).length) := by
  by_cases hamount : amount = 1
  · subst hamount
    exact decode_groupForm (isOpcode_sized size (by decide))
      (fun bytes => firstTable_shiftOne bytes (sized_cases size) (sizeOf_modRMLead _ (by decide)))
      (by simp) rfl rfl
      (by rw [shift?, ShiftOp.ofDigit?_digit]; rfl)
  · have hencode : (shift op size dst amount).encode =
        encodeModRM size (size = .byte) [sized size 0xC0] (.digit op.digit) (.register dst)
          (bytesLE 1 amount) := by
      simp only [encode, if_neg hamount, bytesLE, BitVec.setWidth_eq]
    rw [length, hencode]
    exact decode_groupForm (isOpcode_sized size (by decide))
      (fun bytes => firstTable_shift bytes (sized_cases size) (sizeOf_modRMLead _ (by decide)))
      (by simp) rfl
      (signed?_bytesLE 1 amount rest)
      (by rw [shift?, ShiftOp.ofDigit?_digit, low_signExtend _ (by decide)]; simp)

end ImmediateForms

section OtherForms

variable (rest : List Byte)

/-- The two extending moves, of a byte and of a word. Only the byte can be in a register that needs
a REX byte to be named. -/
theorem secondTable_movzx {l : Lead} (wide : Bool) (bytes : List Byte) (h : l.size = .dword) :
    decodeSecondTable l (if wide then 0xB7 else 0xB6) bytes =
      (operands? l.fields bytes).bind fun o =>
        let nameable :=
          match o.place with
          | .register r => wide || l.names .byte r
          | .memory _ => true
        if nameable then some (movzx wide (.ofField l.fields.r o.reg) o.place, o.length)
          else none := by
  cases wide <;> exact if_neg (c := l.size ≠ .dword) (not_not_intro h)

/-- Extending moves are read back with the width of what is moved. -/
theorem decode_movzx (wide : Bool) (dst : Register) {src : Place} (hsrc : src.IsEncodable) :
    decode ((movzx wide dst src).encode ++ rest) =
      some (movzx wide dst src, (movzx wide dst src).length) := by
  have hops := Place.operands?_encode (modRMRex .dword (.register dst) src) dst.low src rfl rfl hsrc
    rest
  have hfield : Register.ofField (modRMRex .dword (.register dst) src).r dst.low = dst :=
    Register.ofField_low dst
  refine decode_encodeModRM_second ?_ rfl
  rw [secondTable_movzx _ _ (size_modRMLead (by decide)), List.nil_append, RegField.bits,
    fields_modRMLead, hops, Option.bind_some, hfield]
  cases src with
  | memory m => rfl
  | register r =>
    have hname : (wide || (modRMLead .dword (.register dst) (.register r) (!wide)).names .byte r) =
        true := by
      cases wide
      · exact Lead.names_leadOf fun _ hr => by simp [modRMForced, Place.needsRexAsByte, hr]
      · rfl
    exact if_pos hname

theorem secondTable_bitTest {l : Lead} (bytes : List Byte) (h : l.size = .dword) :
    decodeSecondTable l 0xBA bytes =
      decodeGroupForm l .dword 1 bytes fun d r v =>
        if d = 4 then some (bitTest r (v.setWidth 8)) else none :=
  if_neg (c := l.size ≠ .dword) (not_not_intro h)

/-- Bit tests are read back with the number of the bit. -/
theorem decode_bitTest (src : Register) (bit : Byte) :
    decode ((bitTest src bit).encode ++ rest) =
      some (bitTest src bit, (bitTest src bit).length) := by
  refine decode_encodeModRM_second (n := 2) ?_ rfl
  rw [secondTable_bitTest _ (size_modRMLead (by decide))]
  refine decodeGroupForm_encode (fun h => by cases h) (signed?_bytesLE 1 bit rest) ?_
  rw [low_signExtend _ (by decide)]
  simp

/-- Calls are read back, whether the address called is in a register or in memory. -/
theorem decode_call {target : Place} (htarget : target.IsEncodable) :
    decode ((call (some target)).encode ++ rest) =
      some (call (some target), (call (some target)).length) := by
  have hops := Place.operands?_encode (modRMRex .dword (.digit 2) target) 2 target rfl rfl htarget
    rest
  have hsize : (modRMLead .dword (.digit 2) target false).size = .dword :=
    size_modRMLead (by decide)
  have htable (l : Lead) (bytes : List Byte) (h : l.size = .dword) :
      decodeFirstTable l 0xFF bytes =
        (operands? l.fields bytes).bind fun o =>
          if o.reg = 2 then some (call (some o.place), o.length) else none :=
    if_neg fun h' => h' h
  refine decode_encodeModRM (by decide) (by decide) (by decide) ?_ rfl
  rw [htable _ _ hsize, List.nil_append, RegField.bits, fields_modRMLead, hops]
  rfl

theorem decode_push (src : Register) :
    decode ((push src).encode ++ rest) = some (push src, (push src).length) := by
  apply decode_encodeShortForm
  · cases src <;> decide
  · cases src <;> decide
  · cases src <;> decide
  · cases src <;> rfl

theorem decode_pop (dst : Register) :
    decode ((pop dst).encode ++ rest) = some (pop dst, (pop dst).length) := by
  apply decode_encodeShortForm
  · cases dst <;> decide
  · cases dst <;> decide
  · cases dst <;> decide
  · cases dst <;> rfl

/-- The displacement of an encodable branch fits its field: extending the bits that are written
gives the displacement back. -/
theorem signExtend_displacement {condition : Option Condition} {width : BranchWidth} {d : BitVec 32}
    (h : (branch condition width d).IsEncodable) :
    (d.setWidth (8 * width.bytes)).signExtend 32 = d := by
  cases width with
  | near => simp [BranchWidth.bytes]
  | short =>
    by_cases hd : (d.setWidth 8).signExtend 32 = d
    · exact hd
    · simp [IsEncodable, fault?, memory?, hd] at h

/-- The bytes of a branch in front of its displacement. -/
def branchOpcode : Option Condition → BranchWidth → List Byte
  | none, .short => [0xEB]
  | none, .near => [0xE9]
  | some c, .short => [0x7#4 ++ c.code]
  | some c, .near => [0x0F, 0x8#4 ++ c.code]

/-- A branch is its opcode and then its displacement, as four bytes or one. -/
theorem encodeBranch_eq (condition : Option Condition) (width : BranchWidth) (d : BitVec 32) :
    encodeBranch condition width d = branchOpcode condition width ++ bytesLE width.bytes d := by
  cases condition <;> cases width <;> rfl

/-- The opcode of a branch tells its condition and its width apart from all others, so that only the
displacement remains to be read. -/
theorem decode_branchOpcode (condition : Option Condition) (width : BranchWidth)
    (bytes : List Byte) :
    decode (branchOpcode condition width ++ bytes) =
      (decodeBranch ⟨false, none⟩ condition width bytes).map fun (i, n) =>
        (i, n + (branchOpcode condition width).length) := by
  cases condition with
  | none => cases width <;> rfl
  | some c => cases width <;> cases c <;> rfl

/-- Branches are read back with their condition, their width and their displacement. -/
theorem decode_branch (condition : Option Condition) (width : BranchWidth) {d : BitVec 32}
    (hd : (branch condition width d).IsEncodable) :
    decode ((branch condition width d).encode ++ rest) =
      some (branch condition width d, (branch condition width d).length) := by
  have hdisplacement : decodeBranch ⟨false, none⟩ condition width (bytesLE width.bytes d ++ rest) =
      some (branch condition width d, width.bytes) := by
    rw [decodeBranch, signed?_bytesLE, Option.map_some,
      low_signExtend _ (by cases width <;> decide), signExtend_displacement hd]
    rfl
  rw [length, encode, encodeBranch_eq, List.append_assoc, decode_branchOpcode, hdisplacement,
    Option.map_some, List.length_append, length_bytesLE, Nat.add_comm]

end OtherForms

/-- **Reading undoes encoding**: the bytes of an encodable instruction are read as one instruction
of their length, the same one up to the representative of an immediate operand. -/
theorem decode_encode {i : Instruction} (hi : i.IsEncodable) (rest : List Byte) :
    decode (i.encode ++ rest) = some (i.canonical, i.length) := by
  have hmemory {m : Memory} (hm : i.memory? = some m) : m.index ≠ some .rsp := fun h => by
    simp [IsEncodable, fault?, hm, h] at hi
  cases i with
  | nop => rfl
  | ret => rfl
  | pushFlags => rfl
  | popFlags => rfl
  | push src => exact decode_push rest src
  | pop dst => exact decode_pop rest dst
  | mov size dst src =>
    cases src with
    | register src => exact decode_mov_register size dst src rest
    | immediate v => exact decode_mov_immediate size dst v rest
  | load size dst m => exact decode_load size dst rest (hmemory rfl)
  | store size m src => exact decode_store size src rest (hmemory rfl)
  | lea size dst m =>
    refine decode_lea size dst rest (hmemory rfl) ?_
    rintro rfl
    simp [IsEncodable, fault?, memory?, hmemory rfl] at hi
  | movzx wide dst src =>
    refine decode_movzx rest wide dst fun m h => ?_
    subst h
    exact hmemory rfl
  | alu op size dst src =>
    cases src with
    | register src => exact decode_alu_register size dst src rest op
    | immediate v => exact decode_alu_immediate size dst v rest op
  | test size dst src =>
    cases src with
    | register src => exact decode_test_register size dst src rest
    | immediate v => exact decode_test_immediate size dst v rest
  | shift op size dst amount => exact decode_shift size dst rest op amount
  | bitTest src bit => exact decode_bitTest rest src bit
  | branch condition width d => exact decode_branch rest condition width hi
  | call target =>
    cases target with
    | none => simp [IsEncodable, fault?, memory?] at hi
    | some target =>
      refine decode_call rest fun m h => ?_
      subst h
      exact hmemory rfl

end Instruction

end Dynarec.Host
