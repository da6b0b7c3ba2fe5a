import Dynarec.Proofs.Codegen.Operands
import Dynarec.Proofs.Codegen.Stack

/-!
# Arithmetic

The host's arithmetic on bytes gives the results and the flags that the guest's gives, and so do the
instruction sequences made of it. The guest's arithmetic is about numbers, the host's about words:
`moved_up` and `moved_down` turn sums into bits that move.
-/

namespace Dynarec.Codegen

open Bridge (MemoryInterface)
open Guest (AluOp ShiftOp Operand8 Reg16)
open Host (Memory Register Registers Size)
open Interpreter (Flagged)
open Machine (Environment State Changes Runs Yields)

variable {σ : Type} {env : Environment} {i : MemoryInterface σ} {g : Interpreter.State σ}
  {s : State σ}

/-! ### Sums and differences -/

/-- The byte of a sum is the sum of the bytes and the carry, modulo 256. -/
theorem value_sum (a b : Byte) (carry : Bool) :
    (Flagged.sum a b carry).value = a + b + BitVec.ofNat 8 carry.toNat := by
  simp [Flagged.sum, Flagged.ofByte, BitVec.ofNat_add]

/-- The byte of a difference is the difference of the bytes and the borrow, modulo 256. -/
theorem value_difference (a b : Byte) (borrow : Bool) :
    (Flagged.difference a b borrow).value = a - b - BitVec.ofNat 8 borrow.toNat := by
  apply BitVec.eq_of_toNat_eq
  simp only [Flagged.difference, Flagged.ofByte, BitVec.toNat_ofInt, BitVec.toNat_sub,
    BitVec.toNat_ofNat]
  have := borrow.toNat_le
  omega

/-- The host's sum of two bytes is the guest's, with the same zero and carry flags. The host has
further flags, which the guest does not know. -/
theorem addWithCarry_eq_sum (a b : Byte) (carry : Bool) :
    (Host.addWithCarry a b carry).1 = (Flagged.sum a b carry).value ∧
      (Host.addWithCarry a b carry).2.zero = (Flagged.sum a b carry).zero ∧
      (Host.addWithCarry a b carry).2.carry = (Flagged.sum a b carry).carry :=
  have hvalue := (value_sum a b carry).symm
  ⟨hvalue, congrArg (fun v : Byte => decide (v = 0)) hvalue, rfl⟩

/-- The host's difference of two bytes is the guest's, with the same zero and carry flags: the
borrow is the carry flag on both sides. -/
theorem subWithBorrow_eq_difference (a b : Byte) (borrow : Bool) :
    (Host.subWithBorrow a b borrow).1 = (Flagged.difference a b borrow).value ∧
      (Host.subWithBorrow a b borrow).2.zero = (Flagged.difference a b borrow).zero ∧
      (Host.subWithBorrow a b borrow).2.carry = (Flagged.difference a b borrow).carry :=
  have hvalue := (value_difference a b borrow).symm
  ⟨hvalue, congrArg (fun v : Byte => decide (v = 0)) hvalue, rfl⟩

/-- **Accumulator operations** agree, if the host's carry is the guest's where it counts: for those
with a carry in. The others do not look at it. -/
theorem hostAluOp_apply (op : AluOp) (a b : Byte) {carry c : Bool}
    (hcarry : usesCarry op = true → c = carry) :
    ((hostAluOp op).apply a b c).1 = (Interpreter.alu op a b carry).value ∧
      ((hostAluOp op).apply a b c).2.zero = (Interpreter.alu op a b carry).zero ∧
      ((hostAluOp op).apply a b c).2.carry = (Interpreter.alu op a b carry).carry := by
  cases op with
  | add => exact addWithCarry_eq_sum a b false
  | adc => exact hcarry rfl ▸ addWithCarry_eq_sum a b c
  | sub => exact subWithBorrow_eq_difference a b false
  | sbc => exact hcarry rfl ▸ subWithBorrow_eq_difference a b c
  | cp => exact subWithBorrow_eq_difference a b false
  | and => exact ⟨rfl, rfl, rfl⟩
  | xor => exact ⟨rfl, rfl, rfl⟩
  | or => exact ⟨rfl, rfl, rfl⟩

/-! ### Moved bits -/

/-- Doubling a byte moves its bits up, and puts the new bit below them. -/
theorem moved_up (v : Byte) (bit : Bool) :
    BitVec.ofNat 8 (2 * v.toNat + bit.toNat) = (v.concat bit).setWidth 8 := by
  apply BitVec.eq_of_toNat_eq
  simp [BitVec.toNat_concat, Nat.mul_comm]

/-- Halving a byte moves its bits down, and puts the new bit above them. -/
theorem moved_down (v : Byte) (bit : Bool) :
    BitVec.ofNat 8 (v.toNat / 2 + 128 * bit.toNat) = ((BitVec.cons bit v) >>> 1).setWidth 8 := by
  apply BitVec.eq_of_toNat_eq
  simp only [BitVec.toNat_ofNat, BitVec.toNat_setWidth, BitVec.toNat_ushiftRight,
    BitVec.toNat_cons', Nat.shiftLeft_eq, Nat.shiftRight_eq_div_pow]
  omega

/-- Rotating a byte to the left puts its highest bit below the others. -/
theorem rotateLeft_one (v : Byte) : v.rotateLeft 1 = (v.concat (v.getLsbD 7)).setWidth 8 := by
  apply BitVec.eq_of_getLsbD_eq
  intro k hk
  simp only [BitVec.getLsbD_rotateLeft, BitVec.getLsbD_setWidth, BitVec.getLsbD_concat]
  by_cases hzero : k = 0
  · simp [hzero]
  · simp [hzero]

/-- Rotating a byte to the right puts its lowest bit above the others. -/
theorem rotateRight_one (v : Byte) :
    v.rotateRight 1 = ((BitVec.cons (v.getLsbD 0) v) >>> 1).setWidth 8 := by
  apply BitVec.eq_of_getLsbD_eq
  intro k hk
  simp only [BitVec.getLsbD_rotateRight, BitVec.getLsbD_setWidth, BitVec.getLsbD_ushiftRight,
    BitVec.getLsbD_cons]
  by_cases hlast : k = 7
  · simp [hlast]
  · have hlt : k < 7 := by omega
    have hne : 1 + k ≠ 8 := by omega
    simp [hk, hlt, hne]

/-- Rotating a byte to the left through another bit puts that bit below. -/
theorem rotateLeft_cons_one (v : Byte) (bit : Bool) :
    ((BitVec.cons bit v).rotateLeft 1).setWidth 8 = (v.concat bit).setWidth 8 := by
  apply BitVec.eq_of_getLsbD_eq
  intro k hk
  simp [BitVec.getLsbD_rotateLeft, BitVec.getLsbD_concat, BitVec.getLsbD_cons]
  grind

/-- Rotating a byte to the right through another bit puts that bit above. -/
theorem rotateRight_cons_one (v : Byte) (bit : Bool) :
    ((BitVec.cons bit v).rotateRight 1).setWidth 8 = ((BitVec.cons bit v) >>> 1).setWidth 8 := by
  apply BitVec.eq_of_getLsbD_eq
  intro k hk
  simp [BitVec.getLsbD_rotateRight, BitVec.getLsbD_cons]
  grind

/-- A shift to the left puts a zero below. -/
theorem shiftLeft_one (v : Byte) : v <<< 1 = (v.concat false).setWidth 8 := by
  apply BitVec.eq_of_getLsbD_eq
  intro k hk
  simp [BitVec.getLsbD_concat]
  grind

/-- A shift to the right that keeps the sign puts the highest bit above once more. -/
theorem sshiftRight_one (v : Byte) :
    v.sshiftRight 1 = ((BitVec.cons (v.getLsbD 7) v) >>> 1).setWidth 8 := by
  apply BitVec.eq_of_getLsbD_eq
  intro k hk
  simp [BitVec.getLsbD_sshiftRight, BitVec.getLsbD_cons, BitVec.msb_eq_getLsbD_last]
  grind

/-- A shift to the right that does not keep the sign puts a zero above. -/
theorem ushiftRight_one (v : Byte) : v >>> 1 = ((BitVec.cons false v) >>> 1).setWidth 8 := by
  apply BitVec.eq_of_getLsbD_eq
  intro k hk
  simp [BitVec.getLsbD_cons]
  grind

/-- A rotation by four places exchanges the halves of a byte. -/
theorem rotateLeft_four (v : Byte) : v.rotateLeft 4 = v.extractLsb' 0 4 ++ v.extractLsb' 4 4 := by
  apply BitVec.eq_of_getLsbD_eq
  intro k hk
  simp [BitVec.getLsbD_rotateLeft]
  grind

/-- The bit that a rotation to the right moves out is the lowest one, which is then the highest. -/
theorem msb_rotateRight_one (v : Byte) : (v.rotateRight 1).msb = v.getLsbD 0 := by
  simp [BitVec.msb_eq_getLsbD_last]

/-- The bit that a rotation to the left through another bit moves out is the highest one of the
byte. -/
theorem msb_rotateLeft_cons_one (v : Byte) (bit : Bool) :
    ((BitVec.cons bit v).rotateLeft 1).msb = v.getLsbD 7 := by
  simp [BitVec.msb_eq_getLsbD_last, BitVec.getElem_cons]

/-- The bit that a rotation to the right through another bit moves out is the lowest one of the
byte. -/
theorem msb_rotateRight_cons_one (v : Byte) (bit : Bool) :
    ((BitVec.cons bit v).rotateRight 1).msb = v.getLsbD 0 := by
  simp [BitVec.msb_eq_getLsbD_last, BitVec.getElem_cons]

/-! ### Words with a changed part -/

/-- Complementing the low byte of 32 bits complements a zero-extended byte, which stays
zero-extended. -/
theorem complement_extended (v : Byte) :
    (((v.setWidth 64 : HostWord).setWidth 32 ^^^ (0xFF#64).setWidth 32).setWidth 64 : HostWord) =
      (~~~v).setWidth 64 := by
  have hones : (0xFF#64).setWidth 32 = (BitVec.allOnes 8).setWidth 32 := rfl
  rw [hones, BitVec.setWidth_setWidth_of_le _ (by decide), ← BitVec.setWidth_xor,
    BitVec.xor_allOnes]
  exact BitVec.setWidth_setWidth (by decide)

/-! ### Byte instructions -/

/-- The low byte of a zero-extended byte is the byte. -/
theorem low_extended (v : Byte) : (v.setWidth 64 : HostWord).setWidth 8 = v :=
  BitVec.eq_of_getLsbD_eq fun k hk => by simp [hk]

/-- The low byte of a register that holds a zero-extended byte is that byte. This is how byte
instructions find their operands. -/
theorem read_byte {r : Register} {v : Byte} (hv : s.registers.get r = v.setWidth 64) :
    s.registers.read .byte r = v := by
  rw [Registers.read, hv]
  exact low_extended v

/-- Writing a byte to a zero-extended one leaves it zero-extended: the bits above are zero before
and after. -/
theorem update_extended (v w : Byte) :
    ((v.setWidth 64 : HostWord) >>> 8) <<< 8 ||| w.setWidth 64 = w.setWidth 64 := by
  apply BitVec.eq_of_getLsbD_eq
  intro k hk
  simp

variable (env i) in
/-- An arithmetic instruction on a zero-extended byte keeps it zero-extended, and sets the host
flags by its result. -/
theorem runs_aluByte (op : Host.AluOp) (hop : op.writes = true) {r : Register} {v : Byte}
    (hv : s.registers.get r = v.setWidth 64) (src : Host.Source) :
    ∃ t, Runs env i [.alu op .byte r src] s [] t ∧ Changes [r] s t ∧
      t.registers.get r =
        (op.apply v (Machine.sourceValue s .byte src) s.flags.carry).1.setWidth 64 ∧
      t.flags = (op.apply v (Machine.sourceValue s .byte src) s.flags.carry).2 := by
  refine ⟨_, .quiet (Machine.execute_alu hop _ _ _) rfl (.nil _),
    ((Changes.refl _ s).setFlags _).writeRegister List.mem_cons_self _ _, ?_, ?_⟩
  · rw [Machine.get_writeRegister, if_pos rfl, Machine.registers_setFlags, Machine.update_byte,
      read_byte hv, hv, update_extended]
  · rw [Machine.flags_writeRegister, Machine.flags_setFlags, read_byte hv]

variable (env i) in
/-- A shift of a zero-extended byte keeps it zero-extended. The number of places must not be zero,
with which the flags would be left alone. -/
theorem runs_shiftByte (op : Host.ShiftOp) {r : Register} {v : Byte}
    (hv : s.registers.get r = v.setWidth 64) (n : Nat)
    (hn : Host.ShiftOp.places Size.byte.bits (BitVec.ofNat 8 n) = n) (hpos : n ≠ 0) :
    ∃ t, Runs env i [.shift op .byte r (BitVec.ofNat 8 n)] s [] t ∧ Changes [r] s t ∧
      t.registers.get r = (op.move v n s.flags).1.setWidth 64 ∧
        t.flags = (op.move v n s.flags).2 := by
  have hplaces : Host.ShiftOp.places Size.byte.bits (BitVec.ofNat 8 n) ≠ 0 := by rwa [hn]
  refine ⟨_, .quiet (Machine.execute_shift hplaces _) rfl (.nil _),
    ((Changes.refl _ s).writeRegister List.mem_cons_self _ _).setFlags _, ?_, ?_⟩
  · rw [Machine.registers_setFlags, Machine.get_writeRegister, if_pos rfl, Machine.update_byte,
      read_byte hv, hv, update_extended, hn]
  · rw [Machine.flags_setFlags, read_byte hv, hn]

/-! ### Accumulator operations -/

/-- The guest carry is moved to the host's, for operations that use it. For the others nothing is
done, and nothing is said about the host's carry. -/
theorem runs_loadCarry_of (h : Mirrors env g s) (op : AluOp) :
    ∃ t, Runs env i (if usesCarry op then loadCarry else []) s [] t ∧ Changes [] s t ∧
      (usesCarry op = true → t.flags.carry = g.carry) := by
  by_cases hop : usesCarry op = true
  · rw [if_pos hop]
    obtain ⟨t, ht, hchanges, hcarry⟩ := runs_loadCarry (i := i) h
    exact ⟨t, ht, hchanges, fun _ => hcarry⟩
  · rw [if_neg hop]
    exact ⟨s, .nil s, Changes.refl _ s, fun h => absurd h hop⟩

/-- **An accumulator operation** on a byte in a register: the accumulator and both flags are those
of the guest, and the host flags are up to date. -/
theorem runs_accumulate (h : Mirrors env g s) (op : AluOp) {r : Register} {v : Byte}
    (hv : s.registers.get r = v.setWidth 64) :
    ∃ t, Runs env i ((if usesCarry op then loadCarry else []) ++
        [.alu (hostAluOp op) .byte accumulator (.register r)] ++ updateFlags .zeroAndCarry) s [] t ∧
      Mirrors env (Interpreter.accumulate g op v) t ∧ Synced t := by
  obtain ⟨u, hu, hsu, hcarry⟩ := runs_loadCarry_of (i := i) h op
  have hmirrors := h.free hsu (by decide)
  have hsource : Machine.sourceValue u .byte (.register r) = v :=
    read_byte ((hsu.registers r (by simp)).trans hv)
  obtain ⟨hresult, hzeroResult, hcarryResult⟩ := hostAluOp_apply op g.a v hcarry
  by_cases hop : op = .cp
  · -- the comparison leaves A alone
    subst hop
    have hchanges := (Changes.refl [] u).setFlags
      (Host.subWithBorrow (u.registers.read .byte accumulator) v false).2
    obtain ⟨w, hw, -, hmirrors', hsynced⟩ :=
      runs_updateFlags (i := i) (hmirrors.free hchanges (by decide)) .zeroAndCarry
    rw [Machine.flags_setFlags, read_byte hmirrors.a] at hmirrors'
    refine ⟨w, (hu.append_quiet (.quiet ?_ rfl (.nil _))).append_quiet hw, ?_, hsynced⟩
    · rw [← hsource]
      exact Machine.execute_cmp _ _ _
    · rw [Interpreter.accumulate, if_pos rfl, ← hzeroResult, ← hcarryResult]
      exact hmirrors'
  · -- the other operations write it
    have hwrites : (hostAluOp op).writes = true := by
      cases op <;> first | rfl | exact absurd rfl hop
    obtain ⟨t, ht, hut, ha, hflags⟩ := runs_aluByte env i _ hwrites hmirrors.a (.register r)
    rw [hsource, hresult] at ha
    rw [hsource] at hflags
    obtain ⟨w, hw, -, hmirrors', hsynced⟩ :=
      runs_updateFlags (i := i) (hmirrors.setA hut ha (by decide)) .zeroAndCarry
    rw [hflags, hzeroResult, hcarryResult] at hmirrors'
    refine ⟨w, (hu.append_quiet ht).append_quiet hw, ?_, hsynced⟩
    rw [Interpreter.accumulate, if_neg hop]
    exact hmirrors'

/-! ### Changes of bytes -/

/-- **Adding a constant** to a byte, with a capture of the flags: bits 6 and 0 of what is captured
are zero and carry. Which of them the guest has is for the instruction to say. -/
theorem runs_incrementRegister (h : Mirrors env g s) {r : Register} (hr : r ∈ freeRegisters)
    (hne : r ≠ capturedFlags) (delta : HostWord) {v : Byte}
    (hv : s.registers.get r = v.setWidth 64) :
    ∃ t, Runs env i (.alu .add .byte r (.immediate delta) :: captureFlags) s [] t ∧
      Changes [r, capturedFlags, scratchFlags] s t ∧
      (t.registers.get r).setWidth 8 = (Flagged.sum v (delta.setWidth 8) false).value ∧
      (t.registers.get capturedFlags).getLsbD 6 = (Flagged.sum v (delta.setWidth 8) false).zero ∧
      (t.registers.get capturedFlags).getLsbD 0 =
        (Flagged.sum v (delta.setWidth 8) false).carry := by
  obtain ⟨hvalue, hzero, hcarry⟩ := addWithCarry_eq_sum v (delta.setWidth 8) false
  obtain ⟨u, hu, hsu, hresult, hflags⟩ := runs_aluByte env i .add rfl hv (.immediate delta)
  have hmirrors := h.free hsu fun q hq => List.mem_singleton.mp hq ▸ hr
  obtain ⟨t, ht, hut, hzero', hcarry'⟩ := runs_captureFlags (i := i) hmirrors.isBalanced
  refine ⟨t, hu.append_quiet ht, (hsu.mono (by simp)).trans (hut.mono (by simp)), ?_, ?_, ?_⟩
  · rw [hut.registers r (by simpa using hne), hresult, ← hvalue]
    exact BitVec.eq_of_getLsbD_eq fun k hk => by simp [hk, Host.AluOp.apply]
  · rw [hzero', hflags, ← hzero]
    rfl
  · rw [hcarry', hflags, ← hcarry]
    rfl

/-- **Rotating** a byte defines the host's carry. The zero flag is left alone by the host, so that
it has to be tested for where the guest has it. -/
theorem runs_rotate (h : Mirrors env g s) {op : ShiftOp} (hop : op.isRotation = true) {r : Register}
    {v : Byte} (hv : s.registers.get r = v.setWidth 64) :
    ∃ t, Runs env i (rotate op r) s [] t ∧ Changes [r] s t ∧
      t.registers.get r = (Interpreter.shift op v g.carry).value.setWidth 64 ∧
      t.flags.carry = (Interpreter.shift op v g.carry).carry := by
  obtain ⟨u, hu, hsu, hcarry⟩ := runs_loadCarry (i := i) h
  have hv' := (hsu.registers r (by simp)).trans hv
  -- only the rotations through the carry load it first
  cases op with
  | rlc =>
    obtain ⟨t, ht, hst, hvalue, hflags⟩ := runs_shiftByte env i .rol hv 1 rfl (by decide)
    refine ⟨t, ht, hst, ?_, ?_⟩
    · rw [hvalue]
      exact congrArg _ ((rotateLeft_one v).trans (moved_up v _).symm)
    · rw [hflags]
      simp [Host.ShiftOp.move, Interpreter.shift, Flagged.ofByte, rotateLeft_one]
  | rrc =>
    obtain ⟨t, ht, hst, hvalue, hflags⟩ := runs_shiftByte env i .ror hv 1 rfl (by decide)
    refine ⟨t, ht, hst, ?_, ?_⟩
    · rw [hvalue]
      exact congrArg _ ((rotateRight_one v).trans (moved_down v _).symm)
    · rw [hflags]
      exact msb_rotateRight_one v
  | rl =>
    obtain ⟨t, ht, hut, hvalue, hflags⟩ := runs_shiftByte env i .rcl hv' 1 rfl (by decide)
    refine ⟨t, hu.append_quiet ht, (hsu.mono (by simp)).trans hut, ?_, ?_⟩
    · rw [hvalue, ← hcarry]
      exact congrArg _ ((rotateLeft_cons_one v _).trans (moved_up v _).symm)
    · rw [hflags]
      exact msb_rotateLeft_cons_one v _
  | rr =>
    obtain ⟨t, ht, hut, hvalue, hflags⟩ := runs_shiftByte env i .rcr hv' 1 rfl (by decide)
    refine ⟨t, hu.append_quiet ht, (hsu.mono (by simp)).trans hut, ?_, ?_⟩
    · rw [hvalue, ← hcarry]
      exact congrArg _ ((rotateRight_cons_one v _).trans (moved_down v _).symm)
    · rw [hflags]
      exact msb_rotateRight_cons_one v _
  | _ => cases hop

/-- The **rotations of A**, which clear Z whatever the result is, so that no test of the result is
needed. -/
theorem runs_rotateAccumulator (h : Mirrors env g s) {op : ShiftOp} (hop : op.isRotation = true) :
    ∃ t, Runs env i (rotate op accumulator ++ updateFlags .carryClearZero) s [] t ∧
      Mirrors env { g with
        a := (Interpreter.shift op g.a g.carry).value
        zero := false
        carry := (Interpreter.shift op g.a g.carry).carry } t ∧ Synced t := by
  obtain ⟨u, hu, hsu, hvalue, hcarry⟩ := runs_rotate (i := i) h hop h.a
  obtain ⟨t, ht, -, hmirrors, hsynced⟩ :=
    runs_updateFlags (i := i) (h.setA hsu hvalue (by decide)) .carryClearZero
  rw [hcarry] at hmirrors
  exact ⟨t, hu.append_quiet ht, hmirrors, hsynced⟩

/-- A **shift** by one place, whose flags are the host's own: both of them are captured as they
are, without a test of the result. -/
theorem runs_shiftCapture (h : Mirrors env g s) (op : Host.ShiftOp) {r : Register}
    (hr : r ∈ freeRegisters) (hne : r ≠ capturedFlags) {v : Byte}
    (hv : s.registers.get r = v.setWidth 64) :
    ∃ t, Runs env i (.shift op .byte r 1 :: captureFlags) s [] t ∧
      Changes [r, capturedFlags, scratchFlags] s t ∧
      (t.registers.get r).setWidth 8 = (op.move v 1 s.flags).1 ∧
      (t.registers.get capturedFlags).getLsbD 6 = (op.move v 1 s.flags).2.zero ∧
      (t.registers.get capturedFlags).getLsbD 0 = (op.move v 1 s.flags).2.carry := by
  obtain ⟨u, hu, hsu, hvalue, hflags⟩ := runs_shiftByte env i op hv 1 rfl (by decide)
  have hmirrors := h.free hsu fun q hq => List.mem_singleton.mp hq ▸ hr
  obtain ⟨t, ht, hut, hzero, hcarry⟩ := runs_captureFlags (i := i) hmirrors.isBalanced
  refine ⟨t, hu.append_quiet ht, (hsu.mono (by simp)).trans (hut.mono (by simp)), ?_,
    hzero.trans (congrArg _ hflags), hcarry.trans (congrArg _ hflags)⟩
  rw [hut.registers r (by simpa using hne), hvalue]
  exact low_extended _

/-- **Rotating** a byte, with a capture of both flags: the carry of the rotation, and zero by a test
of the result. -/
theorem runs_rotateCapture (h : Mirrors env g s) {op : ShiftOp} (hop : op.isRotation = true)
    {r : Register} (hr : r ∈ freeRegisters) (hne : r ∉ [capturedFlags, scratchFlags]) {v : Byte}
    (hv : s.registers.get r = v.setWidth 64) :
    ∃ t, Runs env i (rotate op r ++ captureFlags ++ captureZeroOf r) s [] t ∧
      Changes [r, capturedFlags, scratchFlags] s t ∧
      (t.registers.get r).setWidth 8 = (Interpreter.shift op v g.carry).value ∧
      (t.registers.get capturedFlags).getLsbD 6 = (Interpreter.shift op v g.carry).zero ∧
      (t.registers.get capturedFlags).getLsbD 0 = (Interpreter.shift op v g.carry).carry := by
  obtain ⟨u, hu, hsu, hvalue, hcarry⟩ := runs_rotate (i := i) h hop hv
  have hmirrors := h.free hsu fun q hq => List.mem_singleton.mp hq ▸ hr
  -- a rotation defines the carry only, so the zero flag is captured from its result
  obtain ⟨w, hw, huw, -, hcaptured⟩ := runs_captureFlags (i := i) hmirrors.isBalanced
  obtain ⟨t, ht, hwt, hflags⟩ :=
    runs_captureZeroOf (i := i) (hmirrors.free huw (by decide)).isBalanced r
  have hw' : w.registers.get r = (Interpreter.shift op v g.carry).value.setWidth 64 := by
    rw [huw.registers r (fun hmem => hne (by simp_all)), hvalue]
  refine ⟨t, (hu.append_quiet hw).append_quiet ht,
    (hsu.mono (by simp)).trans ((huw.mono (by simp)).trans (hwt.mono (by simp))), ?_, ?_, ?_⟩
  · rw [hwt.registers r hne, hw', low_extended]
  · rw [hflags, hw', low_extended, getLsbD_shadowWord_zero]
    cases op <;> rfl
  · rw [hflags, getLsbD_shadowWord_carry, hcaptured, hcarry]

/-- Exchanging the halves of a byte, with a capture of both flags: zero by a test of the result,
which clears the carry. -/
theorem runs_swapCapture (h : Mirrors env g s) {r : Register} (hr : r ∈ freeRegisters)
    (hne : r ≠ capturedFlags) {v : Byte} (hv : s.registers.get r = v.setWidth 64) :
    ∃ t, Runs env i (shiftRegister .swap r) s [] t ∧ Changes [r, capturedFlags, scratchFlags] s t ∧
      (t.registers.get r).setWidth 8 = (Interpreter.shift .swap v g.carry).value ∧
      (t.registers.get capturedFlags).getLsbD 6 = (Interpreter.shift .swap v g.carry).zero ∧
      (t.registers.get capturedFlags).getLsbD 0 = (Interpreter.shift .swap v g.carry).carry := by
  obtain ⟨u, hu, hsu, hvalue, -⟩ := runs_shiftByte env i .rol hv 4 rfl (by decide)
  have hmirrors := h.free hsu fun q hq => List.mem_singleton.mp hq ▸ hr
  have hresult :
    (Host.ShiftOp.rol.move v 4 s.flags).1 = (Interpreter.shift .swap v g.carry).value :=
    rotateLeft_four v
  rw [hresult] at hvalue
  -- a rotation does not define the zero flag, so the result is tested
  have htest := (Changes.refl [] u).setFlags (Host.logicFlags
    (u.registers.read .byte r &&& Machine.sourceValue u .byte (.register r)))
  obtain ⟨t, ht, hut, hzero, hcarry⟩ :=
    runs_captureFlags (i := i) (hmirrors.free htest (by decide)).isBalanced
  refine ⟨t, hu.append_quiet (.quiet (Machine.execute_test _ _ _) rfl ht),
    (hsu.mono (by simp)).trans ((htest.mono (by simp)).trans (hut.mono (by simp))), ?_, ?_, ?_⟩
  · rw [hut.registers r (by simpa using hne), Machine.registers_setFlags, hvalue, low_extended]
  · rw [hzero, Machine.flags_setFlags, Machine.sourceValue_register, read_byte hvalue,
      BitVec.and_self]
    rfl
  · rw [hcarry]
    rfl

/-- **Shifting** a byte, with a capture of both flags. The cases are those of the code: rotations,
shifts with the host's own flags, and the exchange of halves. -/
theorem runs_shiftRegister (h : Mirrors env g s) (op : ShiftOp) {r : Register}
    (hr : r ∈ freeRegisters) (hne : r ∉ [capturedFlags, scratchFlags]) {v : Byte}
    (hv : s.registers.get r = v.setWidth 64) :
    ∃ t, Runs env i (shiftRegister op r) s [] t ∧ Changes [r, capturedFlags, scratchFlags] s t ∧
      (t.registers.get r).setWidth 8 = (Interpreter.shift op v g.carry).value ∧
      (t.registers.get capturedFlags).getLsbD 6 = (Interpreter.shift op v g.carry).zero ∧
      (t.registers.get capturedFlags).getLsbD 0 = (Interpreter.shift op v g.carry).carry := by
  have hne' : r ≠ capturedFlags := fun hr' => hne (by simp [hr'])
  cases op with
  | sla =>
    have hvalue :
      (Host.ShiftOp.shl.move v 1 s.flags).1 = (Interpreter.shift .sla v g.carry).value :=
      (shiftLeft_one v).trans (moved_up v _).symm
    obtain ⟨t, ht, hst, hresult, hzero, hcarry⟩ := runs_shiftCapture (i := i) h .shl hr hne' hv
    refine ⟨t, ht, hst, hresult.trans hvalue, hzero.trans ?_, hcarry.trans rfl⟩
    exact congrArg (fun w : Byte => decide (w = 0)) hvalue
  | sra =>
    have hvalue :
      (Host.ShiftOp.sar.move v 1 s.flags).1 = (Interpreter.shift .sra v g.carry).value :=
      (sshiftRight_one v).trans (moved_down v _).symm
    obtain ⟨t, ht, hst, hresult, hzero, hcarry⟩ := runs_shiftCapture (i := i) h .sar hr hne' hv
    refine ⟨t, ht, hst, hresult.trans hvalue, hzero.trans ?_, hcarry.trans ?_⟩
    · exact congrArg (fun w : Byte => decide (w = 0)) hvalue
    · simp [Host.ShiftOp.move, Host.resultFlags, Interpreter.shift, Flagged.ofByte]
  | srl =>
    have hvalue :
      (Host.ShiftOp.shr.move v 1 s.flags).1 = (Interpreter.shift .srl v g.carry).value :=
      (ushiftRight_one v).trans (moved_down v _).symm
    obtain ⟨t, ht, hst, hresult, hzero, hcarry⟩ := runs_shiftCapture (i := i) h .shr hr hne' hv
    refine ⟨t, ht, hst, hresult.trans hvalue, hzero.trans ?_, hcarry.trans rfl⟩
    exact congrArg (fun w : Byte => decide (w = 0)) hvalue
  | swap => exact runs_swapCapture h hr hne' hv
  | rlc => exact runs_rotateCapture h rfl hr hne hv
  | rrc => exact runs_rotateCapture h rfl hr hne hv
  | rl => exact runs_rotateCapture h rfl hr hne hv
  | rr => exact runs_rotateCapture h rfl hr hne hv

/-! ### Single bits -/

/-- A test of one bit is zero exactly if the bit is. -/
theorem and_bitMask_eq_zero (v : Byte) (index : BitVec 3) :
    decide (v &&& bitMask index = 0#8) = !v.getLsbD index.toNat := by
  have hmask : bitMask index = BitVec.twoPow 8 index.toNat := rfl
  have hpow : BitVec.twoPow 8 index.toNat ≠ 0#8 := by
    revert index
    decide
  rw [hmask, BitVec.and_twoPow]
  cases v.getLsbD index.toNat with
  | false => rfl
  | true => exact decide_eq_false hpow

/-- `BIT n, r` sets Z by the bit and keeps C. -/
theorem runs_testBit (h : Mirrors env g s) (index : BitVec 3) {r : Register} {v : Byte}
    (hv : s.registers.get r = v.setWidth 64) :
    ∃ t, Runs env i (.test .byte r (.immediate ((bitMask index).setWidth 64)) ::
        updateFlags .zeroKeepCarry) s [] t ∧
      Mirrors env { g with zero := !v.getLsbD index.toNat } t ∧ Synced t := by
  have hmask : Machine.sourceValue s .byte (.immediate ((bitMask index).setWidth 64)) =
    bitMask index :=
    low_extended _
  have htest := (Changes.refl [] s).setFlags (Host.logicFlags (s.registers.read .byte r &&&
    Machine.sourceValue s .byte (.immediate ((bitMask index).setWidth 64))))
  obtain ⟨t, ht, -, hmirrors, hsynced⟩ :=
    runs_updateFlags (i := i) (h.free htest (by decide)) .zeroKeepCarry
  have hzero : (Host.logicFlags (v &&& bitMask index)).zero = !v.getLsbD index.toNat :=
    and_bitMask_eq_zero v index
  rw [Machine.flags_setFlags, read_byte hv, hmask, hzero] at hmirrors
  exact ⟨t, .quiet (Machine.execute_test _ _ _) rfl ht, hmirrors, hsynced⟩

variable (env i) in
/-- `RES n, r` and `SET n, r`: a byte is combined with a constant. This changes the host flags and
not those of the guest. -/
theorem runs_maskByte (op : Host.AluOp) (hop : op.writes = true) (w : Byte)
    (r : Register) (s : State σ)
    {v : Byte} (hv : s.registers.get r = v.setWidth 64) :
    ∃ t, Runs env i [.alu op .byte r (.immediate (w.setWidth 64))] s [] t ∧ Changes [r] s t ∧
      (t.registers.get r).setWidth 8 = (op.apply v w s.flags.carry).1 := by
  have hmask : Machine.sourceValue s .byte (.immediate (w.setWidth 64)) = w := low_extended _
  obtain ⟨t, ht, hst, hvalue, -⟩ := runs_aluByte env i op hop hv (.immediate (w.setWidth 64))
  exact ⟨t, ht, hst, by rw [hvalue, hmask]; exact low_extended _⟩

/-- `CPL` complements the accumulator. The exclusive or changes the host flags, about which nothing
is said here. -/
theorem runs_complement (h : Mirrors env g s) :
    ∃ t, Runs env i [.alu .xor .dword accumulator (.immediate 0xFF)] s [] t ∧
      Mirrors env { g with a := ~~~g.a } t := by
  refine ⟨_, .quiet (Machine.execute_alu rfl _ _ _) rfl (.nil _), h.setA
    (((Changes.refl [accumulator] s).setFlags _).writeRegister List.mem_cons_self _ _)
      ?_ (by decide)⟩
  rw [Machine.get_writeRegister, if_pos rfl, Machine.update_dword]
  simp only [Machine.sourceValue_immediate, Registers.read, h.a, Host.AluOp.apply]
  exact complement_extended g.a

/-! ### Words -/

/-- `INC rr` and `DEC rr` keep the host flags: the addition is that of an address, and the word is
cut off after it. -/
theorem runs_increment16 (hsound : env.Sound) (h : Mirrors env g s) (p : Reg16)
    (delta : BitVec 32) :
    ∃ t, Runs env i (increment16Code p delta) s [] t ∧
      Mirrors env (g.set16 p (g.get16 p + delta.setWidth 16)) t ∧ t.flags = s.flags := by
  by_cases hp : p = .sp
  · -- SP is one word of its register: the sum goes through another one
    subst hp
    have hchanges := (Changes.refl [result] s).writeRegister List.mem_cons_self .dword
      ((Machine.effectiveAddress s.registers
        ((Memory.ofBase stackPointer).offset delta)).setWidth 32)
    have hlow : ((Machine.writeRegister s .dword result
        ((Machine.effectiveAddress s.registers ((Memory.ofBase stackPointer).offset
          delta)).setWidth 32)).registers.get result).setWidth 16 = g.sp + delta.setWidth 16 := by
      rw [Machine.get_writeRegister, if_pos rfl, Machine.update_dword,
        Machine.effectiveAddress_offset]
      exact low_add_displacement (h.pairLow hsound .sp) delta
    obtain ⟨t, ht, -, hmirrors, hflags⟩ :=
      runs_store16 (i := i) hsound (h.free hchanges (by decide)) .sp hlow
    exact ⟨t, .quiet rfl rfl ht, hmirrors, hflags⟩
  · obtain ⟨t, ht, -, hmirrors, hflags⟩ := runs_adjustPair (i := i) h hp delta
    refine ⟨t, ?_, hmirrors, hflags⟩
    cases p with
    | sp => exact absurd rfl hp
    | _ => exact ht

/-- `ADD HL, rr` sets C by the sum of the words and keeps Z. -/
theorem runs_addHl (hsound : env.Sound) (h : Mirrors env g s) (p : Reg16) :
    ∃ t, Runs env i (addHlCode p) s [] t ∧
      Mirrors env { g with
        hl := BitVec.ofNat 16 (g.hl.toNat + (g.get16 p).toNat)
        carry := decide (0x10000 ≤ g.hl.toNat + (g.get16 p).toNat) } t ∧ Synced t := by
  obtain ⟨s₁, hs₁, hchanges₁, hresult, -⟩ := runs_load16 (i := i) hsound h .hl result
  have hleft : s₁.registers.read .word result = g.hl := by
    rw [Registers.read, hresult]
    exact BitVec.eq_of_getLsbD_eq fun k hk => by simp [hk]; rfl
  have hright : Machine.sourceValue s₁ .word (.register (pairRegister p)) = g.get16 p :=
    (h.free hchanges₁ (by decide)).pairLow hsound p
  -- the sum of the words, whose carry is captured before HL is stored
  have hchanges₂ := ((Changes.refl [result] s₁).setFlags (Host.AluOp.add.apply
    (s₁.registers.read .word result) (Machine.sourceValue s₁ .word (.register (pairRegister p)))
      s₁.flags.carry).2).writeRegister List.mem_cons_self .word (Host.AluOp.add.apply
        (s₁.registers.read .word result) (Machine.sourceValue s₁ .word (.register (pairRegister p)))
          s₁.flags.carry).1
  have hmirrors₂ := (h.free hchanges₁ (by decide)).free hchanges₂ (by decide)
  obtain ⟨s₃, hs₃, hchanges₃, -, hcarry⟩ := runs_captureFlags (i := i) hmirrors₂.isBalanced
  rw [Machine.flags_writeRegister, Machine.flags_setFlags, hleft, hright] at hcarry
  obtain ⟨s₄, hs₄, hchanges₄, hmirrors₄, -⟩ :=
    runs_store16 (i := i) hsound (hmirrors₂.free hchanges₃ (by decide)) .hl
    (v := BitVec.ofNat 16 (g.hl.toNat + (g.get16 p).toNat)) (by
      rw [hchanges₃.registers result (by decide), Machine.get_writeRegister, if_pos rfl,
        Machine.update_word, hleft, hright, low_update_word]
      simp [Host.AluOp.apply, Host.addWithCarry, BitVec.ofNat_add])
  have hkept : capturedFlags ∉ [pairRegister .hl] := by decide
  obtain ⟨t, ht, -, hmirrors, hsynced⟩ := runs_commitFlags (i := i) hmirrors₄ .carryKeepZero rfl
    ((congrArg (·.getLsbD 0) (hchanges₄.registers capturedFlags hkept)).trans hcarry)
  refine ⟨t, ((hs₁.append_quiet (.quiet (Machine.execute_alu rfl _ _ _) rfl (.nil _))).append_quiet
    hs₃).append_quiet hs₄ |>.append_quiet ht, ?_, hsynced⟩
  exact hmirrors

end Dynarec.Codegen
