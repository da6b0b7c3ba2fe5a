import Dynarec.Proofs.Codegen.Canonical

/-!
# Slots as lenses

The slot of an 8 bit guest register is a **lens** into a host register: it holds a byte
(`Slot.get`), and another byte can be put there (`Slot.put`). Of a pair only that byte is replaced;
a register that is taken whole is extended by zeros, so the laws of its lens need a value below the
**bound** of the slot. In the same way a pair holds a word, and `putWord` puts another one there.

The laws are facts about words. They meet the machine in the instruction sequences of
`Codegen.Binding`, which compute these functions in every state of the machine, whatever the shadow
flags, the window base and the host stack are.
-/

namespace Dynarec.Codegen

open Bridge (Layout MemoryInterface)
open Guest (Reg8 Reg16)
open Host (Register Registers Size)
open Machine (Environment State Changes Runs)

variable {σ : Type} {s t : State σ}

/-! ### Bytes of a word -/

/-- Reading the high byte of the low word, by a shift of it. -/
theorem high_of_word (v : HostWord) :
    (((v.setWidth 16).setWidth 64).setWidth 32 >>> 8).setWidth 64 =
      (v.extractLsb' 8 8).setWidth 64 := by
  refine BitVec.eq_of_getLsbD_eq fun k hk => ?_
  simp
  grind

/-- Writing the low word puts it there. -/
theorem low_update_word (old : HostWord) (v : BitVec 16) :
    ((old >>> 16) <<< 16 ||| v.setWidth 64).setWidth 16 = v := by
  refine BitVec.eq_of_getLsbD_eq fun k hk => ?_
  simp [hk]

/-- Writing the low word leaves the 48 bits above it alone. -/
theorem upper_update_word (old : HostWord) (v : BitVec 16) :
    Size.word.update old v >>> 16 = old >>> 16 := by
  refine BitVec.eq_of_getLsbD_eq fun k hk => ?_
  simp
  grind

/-- Writing the low byte of the low word leaves the high one in place. -/
theorem low_update_byte (old : HostWord) (b : Byte) :
    (Size.byte.update old b).setWidth 16 = (old.setWidth 16).extractLsb' 8 8 ++ b := by
  refine BitVec.eq_of_getLsbD_eq fun k hk => ?_
  simp
  grind

/-- Writing the low byte leaves the 48 bits above the low word alone. -/
theorem upper_update_byte (old : HostWord) (b : Byte) :
    Size.byte.update old b >>> 16 = old >>> 16 := by
  refine BitVec.eq_of_getLsbD_eq fun k hk => ?_
  simp
  grind

/-- A register holds a zero-extended word if nothing is above it. -/
theorem lt_iff_upper {v : HostWord} : v.toNat < 0x10000 ↔ v >>> 16 = 0#64 := by
  rw [← BitVec.toNat_inj, BitVec.toNat_ushiftRight, Nat.shiftRight_eq_div_pow]
  simp only [BitVec.toNat_ofNat]
  omega

/-- The high byte is written by rotating it to the low one and back, with the low byte in its place
in between. -/
theorem rotateLeft_update_rotateRight (v : BitVec 16) (b : Byte) :
    ((v.rotateRight 8).extractLsb' 8 8 ++ b).rotateLeft 8 = b ++ v.extractLsb' 0 8 := by
  refine BitVec.eq_of_getLsbD_eq fun k hk => ?_
  simp
  grind

/-! ### Slots -/

namespace Slot

/-- The byte in a slot. -/
def get : Slot → HostWord → Byte
  | whole _, v | low _, v => v.setWidth 8
  | high _, v => v.extractLsb' 8 8

/-- A host register after a byte is put into a slot. -/
def put : Slot → HostWord → Byte → HostWord
  | whole _, _, b => b.setWidth 64
  | low _, v, b => Size.byte.update v b
  | high _, v, b => Size.word.update v (b ++ v.extractLsb' 0 8)

/-- What the values of a zero-extended host register with this slot are below. -/
def bound : Slot → Nat
  | whole _ => 0x100
  | low _ | high _ => 0x10000

variable {slot : Slot} {v : HostWord}

/-- What was **put** is there, in each of the three kinds of slots. -/
theorem get_put (slot : Slot) (v : HostWord) (b : Byte) : slot.get (slot.put v b) = b := by
  refine BitVec.eq_of_getLsbD_eq fun k hk => ?_
  cases slot with
  | whole _ => simp [get, put, hk]
  | low _ => simp [get, put, hk]
  | high _ =>
    simp [get, put]
    grind

/-- Putting back what is there **changes nothing**, if the register is zero-extended as far as the
slot needs it. -/
theorem put_get (hv : v.toNat < slot.bound) : slot.put v (slot.get v) = v := by
  cases slot with
  | whole _ =>
    refine (eq_setWidth (by decide) ?_).symm
    rw [BitVec.toNat_setWidth]
    exact Nat.mod_eq_of_lt hv
  | low _ | high _ =>
    refine BitVec.eq_of_getLsbD_eq fun k hk => ?_
    simp [get, put]
    grind

/-- A register with a slot stays **zero-extended** when a byte is put there. -/
theorem put_lt (hv : v.toNat < slot.bound) (b : Byte) : (slot.put v b).toNat < slot.bound := by
  cases slot with
  | whole _ => exact toNat_setWidth_lt (by decide) b.isLt
  | low _ => exact lt_iff_upper.mpr ((upper_update_byte v b).trans (lt_iff_upper.mp hv))
  | high _ => exact lt_iff_upper.mpr ((upper_update_word v _).trans (lt_iff_upper.mp hv))

/-- The **high byte** does not see the low one. -/
theorem get_high_put_low (q : Register) (v : HostWord) (b : Byte) :
    (high q).get ((low q).put v b) = (high q).get v := by
  refine BitVec.eq_of_getLsbD_eq fun k hk => ?_
  simp [get, put]
  grind

/-- The **low byte** does not see the high one. -/
theorem get_low_put_high (q : Register) (v : HostWord) (b : Byte) :
    (low q).get ((high q).put v b) = (low q).get v := by
  refine BitVec.eq_of_getLsbD_eq fun k hk => ?_
  simp [get, put]
  grind

/-- Halves of a zero-extended pair: the low byte is replaced. -/
theorem put_low_of_pair (q : Register) (v : BitVec 16) (b : Byte) :
    (low q).put (v.setWidth 64) b = (v.extractLsb' 8 8 ++ b).setWidth 64 := by
  refine BitVec.eq_of_getLsbD_eq fun k hk => ?_
  simp [put]
  grind

/-- Halves of a zero-extended pair: the high byte is replaced. -/
theorem put_high_of_pair (q : Register) (v : BitVec 16) (b : Byte) :
    (high q).put (v.setWidth 64) b = (b ++ v.extractLsb' 0 8).setWidth 64 := by
  refine BitVec.eq_of_getLsbD_eq fun k hk => ?_
  simp [put]
  grind

/-- The high byte is put into its slot by **rotating** it to the low end and back. The rotations are
of the low word, so that what is above it stays. -/
theorem put_high_of_rotations (q : Register) (v : HostWord) (b : Byte) :
    let written := Size.byte.update (Size.word.update v ((v.setWidth 16).rotateRight 8)) b
    Size.word.update written ((written.setWidth 16).rotateLeft 8) = (high q).put v b := by
  intro written
  have hlow : written.setWidth 16 = ((v.setWidth 16).rotateRight 8).extractLsb' 8 8 ++ b := by
    rw [low_update_byte, Machine.update_word, low_update_word]
  have hupper : written >>> 16 = v >>> 16 := by rw [upper_update_byte, upper_update_word]
  rw [hlow, rotateLeft_update_rotateRight, BitVec.extractLsb'_setWidth_of_le (by decide), put,
    Machine.update_word, Machine.update_word, hupper]

end Slot

/-! ### Views -/

/-- The host register that an 8 bit guest register lives in. -/
def slotRegister (r : Reg8) : Register :=
  match slot r with
  | .whole q | .low q | .high q => q

/-- The host register of a low slot. -/
theorem slotRegister_of_low {g : Reg8} {q : Register} (h : slot g = .low q) :
    slotRegister g = q := by
  rw [slotRegister, h]

/-- The host register of a high slot. -/
theorem slotRegister_of_high {g : Reg8} {q : Register} (h : slot g = .high q) :
    slotRegister g = q := by
  rw [slotRegister, h]

/-- No 8 bit register lives in the host register of SP. -/
theorem slotRegister_ne_sp (g : Reg8) : slotRegister g ≠ pairRegister .sp := by
  cases g <;> decide

/-- Two guest registers live in different host registers or in the two halves of one, which makes
the cases of every law about two of them. -/
theorem slot_cases {g r : Reg8} (h : g ≠ r) :
    slotRegister g ≠ slotRegister r ∨
      (slot g = .high (slotRegister r) ∧ slot r = .low (slotRegister r)) ∨
      (slot g = .low (slotRegister r) ∧ slot r = .high (slotRegister r)) := by
  revert h
  cases g <;> cases r <;> decide

/-- Slots in one host register have one bound, as A has a host register of its own. -/
theorem bound_congr {g r : Reg8} (h : slotRegister g = slotRegister r) :
    (slot g).bound = (slot r).bound := by
  revert h
  cases g <;> cases r <;> decide

/-- What an 8 bit guest register **holds**. -/
def byteView (r : Registers) (g : Reg8) : Byte := (slot g).get (r.get (slotRegister g))

/-- A change of another host register is not seen. -/
theorem byteView_of_changes {q : Register} (hc : Changes [q] s t) {g : Reg8}
    (hg : slotRegister g ≠ q) : byteView t.registers g = byteView s.registers g := by
  rw [byteView, byteView, hc.registers _ fun hmem => hg (List.mem_singleton.mp hmem)]

/-- A byte that is put into the slot of a guest register is **seen there only**. -/
theorem byteView_of_put {g : Reg8} {b : Byte} (hc : Changes [slotRegister g] s t)
    (hput : t.registers.get (slotRegister g) =
      (slot g).put (s.registers.get (slotRegister g)) b) (r : Reg8) :
    byteView t.registers r = if r = g then b else byteView s.registers r := by
  by_cases hr : r = g
  · subst hr
    rw [if_pos rfl, byteView, hput, Slot.get_put]
  · rw [if_neg hr]
    obtain hapart | ⟨hhigh, hlow⟩ | ⟨hlow, hhigh⟩ := slot_cases hr
    · exact byteView_of_changes hc hapart
    · rw [byteView, byteView, slotRegister_of_high hhigh, hput, hhigh, hlow, Slot.get_high_put_low]
    · rw [byteView, byteView, slotRegister_of_low hlow, hput, hlow, hhigh, Slot.get_low_put_high]

/-- The two halves of a word that is in a pair are **seen** as bytes: this is the high one. -/
theorem byteView_of_high {r : Registers} {p : Reg16} {g : Reg8}
    (hg : slot g = .high (pairRegister p)) :
    byteView r g = ((r.get (pairRegister p)).setWidth 16).extractLsb' 8 8 := by
  rw [byteView, slotRegister_of_high hg, hg, BitVec.extractLsb'_setWidth_of_le (by decide)]
  rfl

/-- The two halves of a word that is in a pair are **seen** as bytes: this is the low one. -/
theorem byteView_of_low {r : Registers} {p : Reg16} {g : Reg8}
    (hg : slot g = .low (pairRegister p)) :
    byteView r g = ((r.get (pairRegister p)).setWidth 16).extractLsb' 0 8 := by
  rw [byteView, slotRegister_of_low hg, hg, BitVec.extractLsb'_setWidth_of_le (by decide)]
  exact BitVec.setWidth_eq_extractLsb' (by decide)

/-! ### Zero-extended registers -/

/-- Whether A and the register pairs other than SP are **zero-extended**. -/
structure ZeroExtended (r : Registers) : Prop where
  accumulator : (r.get .r13).toNat < 0x100
  bc : (r.get .rbx).toNat < 0x10000
  de : (r.get .rbp).toNat < 0x10000
  hl : (r.get .r12).toNat < 0x10000

namespace ZeroExtended

variable {r : Registers}

/-- In zero-extended registers, each slot has its bound. -/
theorem lt_bound (h : ZeroExtended r) (g : Reg8) :
    (r.get (slotRegister g)).toNat < (slot g).bound := by
  cases g with
  | a => exact h.accumulator
  | b | c => exact h.bc
  | d | e => exact h.de
  | h | l => exact h.hl

/-- Registers are zero-extended if each slot has its bound. -/
theorem of_lt_bound (h : ∀ g, (r.get (slotRegister g)).toNat < (slot g).bound) : ZeroExtended r :=
  ⟨h .a, h .b, h .d, h .h⟩

/-- Registers stay **zero-extended** if the one that changes does. -/
theorem of_changes {q : Register} (h : ZeroExtended s.registers) (hc : Changes [q] s t)
    (hq : ∀ g, slotRegister g = q → (t.registers.get q).toNat < (slot g).bound) :
    ZeroExtended t.registers := .of_lt_bound fun g => by
  by_cases hg : slotRegister g = q
  · rw [hg]
    exact hq g hg
  · rw [hc.registers _ fun hmem => hg (List.mem_singleton.mp hmem)]
    exact h.lt_bound g

end ZeroExtended

/-- A canonical register file is zero-extended, and more. -/
theorem Canonical.zeroExtended {layout : Layout} {r : Registers} (h : Canonical layout r) :
    ZeroExtended r :=
  ⟨h.accumulator, h.bc, h.de, h.hl⟩

/-! ### Bytes -/

variable (env : Environment) (i : MemoryInterface σ)

/-- Whether a guest register can be moved without touching the host flags. -/
def isDirect (r : Reg8) : Bool :=
  match slot r with
  | .high _ => false
  | _ => true

/-- **Reading** an 8 bit register gets what it holds, zero-extended. The host flags change for the
high half of a pair only. -/
theorem runs_load8_view (hzero : ZeroExtended s.registers) (r : Reg8) (dst : Register) :
    ∃ t, Runs env i (load8 r dst) s [] t ∧ Changes [dst] s t ∧
      t.registers.get dst = (byteView s.registers r).setWidth 64 ∧
      (isDirect r = true → t.flags = s.flags) := by
  have hbound := hzero.lt_bound r
  unfold load8 byteView slotRegister isDirect at *
  generalize slot r = place at *
  cases place with
  | whole q =>
    refine ⟨_, .quiet rfl rfl (.nil _), (Changes.refl _ s).writeRegister List.mem_cons_self _ _, ?_,
      fun _ => rfl⟩
    have hdword : s.registers.get q = ((s.registers.get q).setWidth 32).setWidth 64 := by
      refine eq_setWidth (by decide) ?_
      rw [BitVec.toNat_setWidth]
      exact Nat.mod_eq_of_lt (Nat.lt_trans (m := 0x100) hbound (by decide))
    calc
      _ = ((s.registers.get q).setWidth 32).setWidth 64 := by
        rw [Machine.get_writeRegister, if_pos rfl]
        rfl
      _ = s.registers.get q := hdword.symm
      _ = ((Slot.whole q).get (s.registers.get q)).setWidth 64 := (Slot.put_get hbound).symm
  | low q =>
    refine ⟨_, .quiet rfl rfl (.nil _), (Changes.refl _ s).setRegister List.mem_cons_self _, ?_,
      fun _ => rfl⟩
    rw [Machine.get_setRegister, if_pos rfl]
    rfl
  | high q =>
    refine ⟨_, .quiet rfl rfl (.quiet (Machine.execute_shift (by decide) dst) rfl (.nil _)),
      (((Changes.refl _ s).setRegister List.mem_cons_self _).writeRegister List.mem_cons_self _
        _).setFlags _, ?_, fun hdirect => by cases hdirect⟩
    rw [Slot.get, ← high_of_word]
    simp only [Machine.registers_setFlags, Machine.get_writeRegister, Machine.get_setRegister,
      if_true, Registers.read]
    rfl

/-- **Writing** an 8 bit register puts a byte into its slot, and changes no other register. The host
flags change for the high half of a pair only. -/
theorem runs_store8_slot (s : State σ) (r : Reg8) {src : Register} (hsrc : src ≠ slotRegister r) :
    ∃ t, Runs env i (store8 r src) s [] t ∧ Changes [slotRegister r] s t ∧
      t.registers.get (slotRegister r) =
        (slot r).put (s.registers.get (slotRegister r)) ((s.registers.get src).setWidth 8) ∧
      (isDirect r = true → t.flags = s.flags) := by
  unfold store8 slotRegister isDirect at *
  generalize slot r = place at *
  cases place with
  | whole q =>
    refine ⟨_, .quiet rfl rfl (.nil _), (Changes.refl _ s).setRegister List.mem_cons_self _, ?_,
      fun _ => rfl⟩
    rw [Machine.get_setRegister, if_pos rfl]
    rfl
  | low q =>
    refine ⟨_, .quiet rfl rfl (.nil _), (Changes.refl _ s).writeRegister List.mem_cons_self _ _, ?_,
      fun _ => rfl⟩
    rw [Machine.get_writeRegister, if_pos rfl]
    rfl
  | high q =>
    refine ⟨_, .quiet (Machine.execute_shift (by decide) _) rfl (.quiet rfl rfl
      (.quiet (Machine.execute_shift (by decide) _) rfl (.nil _))),
      ((((Changes.refl _ s).writeRegister List.mem_cons_self _ _).setFlags _).writeRegister
        List.mem_cons_self _ _).writeRegister List.mem_cons_self _ _ |>.setFlags _, ?_,
      fun hdirect => by cases hdirect⟩
    simp only [Machine.registers_setFlags, Machine.get_writeRegister, if_true, Registers.read,
      if_neg hsrc, Machine.sourceValue_register]
    exact Slot.put_high_of_rotations q _ _

/-! ### Words -/

/-- The host register of a pair after a word is put there. Besides SP it holds the window base. -/
def putWord : Reg16 → HostWord → BitVec 16 → HostWord
  | .sp, v, w => Size.word.update v w
  | _, _, w => w.setWidth 64

/-- The word that was put is there. -/
theorem low_putWord (p : Reg16) (v : HostWord) (w : BitVec 16) :
    (putWord p v w).setWidth 16 = w := by
  cases p with
  | sp => exact low_update_word v w
  | _ => exact BitVec.setWidth_setWidth_of_le w (by decide)

/-- A pair stays **zero-extended** when a word is put there. -/
theorem putWord_lt {p : Reg16} {g : Reg8} (hg : slotRegister g = pairRegister p) (v : HostWord)
    (w : BitVec 16) : (putWord p v w).toNat < (slot g).bound := by
  have hbound : (slot g).bound = 0x10000 := by
    revert hg
    cases g <;> cases p <;> decide
  cases p with
  | sp => exact absurd hg (slotRegister_ne_sp g)
  | bc | de | hl =>
    rw [hbound]
    exact toNat_setWidth_lt (by decide) w.isLt

/-- **Reading** a register pair gets its word, zero-extended: of SP this drops the address of the
window. -/
theorem runs_load16_word (s : State σ) (p : Reg16) (dst : Register) :
    ∃ t, Runs env i (load16 p dst) s [] t ∧ Changes [dst] s t ∧
      t.registers.get dst = ((s.registers.get (pairRegister p)).setWidth 16).setWidth 64 ∧
      t.flags = s.flags := by
  refine ⟨_, .quiet rfl rfl (.nil _), (Changes.refl _ s).setRegister List.mem_cons_self _, ?_, rfl⟩
  rw [Machine.get_setRegister, if_pos rfl]
  rfl

/-- **Writing** a register pair puts a word there: for SP this keeps the address of the window. -/
theorem runs_store16_word (s : State σ) (p : Reg16) (src : Register) :
    ∃ t, Runs env i (store16 p src) s [] t ∧ Changes [pairRegister p] s t ∧
      t.registers.get (pairRegister p) =
        putWord p (s.registers.get (pairRegister p)) ((s.registers.get src).setWidth 16) ∧
      t.flags = s.flags := by
  cases p with
  | sp =>
    refine ⟨_, .quiet rfl rfl (.nil _), (Changes.refl _ s).writeRegister List.mem_cons_self _ _, ?_,
      rfl⟩
    rw [Machine.get_writeRegister]
    rfl
  | bc | de | hl =>
    refine ⟨_, .quiet rfl rfl (.nil _), (Changes.refl _ s).setRegister List.mem_cons_self _, ?_,
      rfl⟩
    rw [Machine.get_setRegister]
    rfl

end Dynarec.Codegen
