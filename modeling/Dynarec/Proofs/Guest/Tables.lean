import Mathlib.Logic.ExistsUnique
import Dynarec.Proofs.Guest.Listing

/-!
# Decoding by the tables

What the **opcode tables** say of the bytes at an index (`Image.entry`): the byte there is the
opcode, the second table is used if it is the table switch, and the operand is the little endian
word made of the bytes behind it. The decoder, which is fed one byte after another, yields just that
(`fetch_eq_entry`).

Instructions that are decoded one after another are related by `Image.Decodes`. They tile the bytes
from the first index to the last (`Decodes.existsUnique_covers`).
-/

namespace Dynarec.Guest

open Opcode (operandSize tableSwitch)

variable {image : Image}

namespace Image

/-! ### Entries -/

/-- The little endian word made of `count` bytes from an index on. -/
def operand (image : Image) (cursor count : Nat) : BitVec 16 :=
  wordLE 16 ((List.range' cursor count).map image.byte)

/-- **The instruction at an index**, by the opcode tables. It must lie in the image as a whole. -/
def entry (image : Image) (cursor : Nat) : Except FetchError Instruction :=
  let opcode := image.byte cursor
  if image.size ≤ cursor then .error .overrun
  else if opcode = tableSwitch then
    if cursor + 2 ≤ image.size then .ok ⟨Opcode.decodePrefixed (image.byte (cursor + 1)), 2⟩
    else .error .overrun
  else
    match operandSize opcode with
    | none => .error (.unknownOpcode opcode)
    | some count =>
      if cursor + (1 + count) ≤ image.size then
        .ok ⟨Opcode.decode opcode (image.operand (cursor + 1) count), 1 + count⟩
      else .error .overrun

/-! ### The decoder -/

/-- An operand is made of its first byte and, above that, of the others. -/
theorem operand_succ (image : Image) (cursor count : Nat) :
    image.operand cursor (count + 1) =
      (image.byte cursor).setWidth 16 ||| image.operand (cursor + 1) count <<< 8 := rfl

/-- The decoder **collects an operand**, whose next byte belongs `shift` bits up. If bytes of it are
missing it runs past the end. -/
theorem fetchFrom_operand (image : Image) (opcode : Byte) (remaining left : Nat)
    (value : BitVec 16) (shift cursor : Nat) :
    image.fetchFrom left (.operand opcode (remaining + 1) value shift) cursor =
      if remaining + 1 ≤ left then
        .ok (⟨Opcode.decode opcode (value ||| image.operand cursor (remaining + 1) <<< shift),
          1 + (operandSize opcode).getD 0⟩, cursor + (remaining + 1))
      else .error .overrun := by
  induction remaining generalizing left value shift cursor with
  | zero =>
    cases left with
    | zero => rfl
    | succ left =>
      rw [fetchFrom, Decoder.feed, if_pos (by omega : 0 + 1 ≤ left + 1), operand_succ]
      simp [operand, wordLE]
  | succ remaining ih =>
    cases left with
    | zero => rfl
    | succ left =>
      have hmore : ¬ remaining + 1 + 1 = 1 := by omega
      rw [fetchFrom, Decoder.feed]
      simp only [if_neg hmore, Nat.add_sub_cancel]
      -- the rest of the operand belongs one byte further up
      have hrest : value ||| (image.byte cursor).setWidth 16 <<< shift |||
            image.operand (cursor + 1) (remaining + 1) <<< (shift + 8) =
          value ||| image.operand cursor (remaining + 1 + 1) <<< shift := by
        rw [operand_succ image cursor, BitVec.shiftLeft_or_distrib, BitVec.or_assoc,
          ← BitVec.shiftLeft_add, Nat.add_comm shift 8, BitVec.shiftLeft_add]
      have hcursor : cursor + 1 + (remaining + 1) = cursor + (remaining + 1 + 1) := by omega
      rw [ih, hrest, hcursor]
      simp only [Nat.succ_le_succ_iff]

/-- **Fetching** an instruction is looking it up in the tables. The decoder goes through its states
byte by byte, and the tables know the number of bytes from the opcode. -/
theorem fetch_eq_entry (image : Image) (cursor : Nat) :
    image.fetch cursor = (image.entry cursor).map fun i => (i, cursor + i.size) := by
  rw [fetch, entry]
  by_cases hend : image.size ≤ cursor
  · rw [if_pos hend, Nat.sub_eq_zero_of_le hend]
    rfl
  obtain ⟨left, hleft⟩ :=
    Nat.exists_eq_succ_of_ne_zero (Nat.sub_ne_zero_of_lt (Nat.lt_of_not_le hend))
  rw [if_neg hend, hleft, fetchFrom]
  -- the first byte decides: a prefix, an opcode that does not exist, or one with an operand
  by_cases hswitch : image.byte cursor = tableSwitch
  · have hfeed : Decoder.boundary.feed (image.byte cursor) = (.pending, .prefixed) := if_pos hswitch
    rw [hfeed, if_pos hswitch]
    cases left with
    | zero =>
      rw [if_neg (by omega)]
      rfl
    | succ left =>
      rw [if_pos (by omega)]
      rfl
  · rw [Decoder.feed, if_neg hswitch, if_neg hswitch]
    rcases hcount : operandSize (image.byte cursor) with _ | _ | count
    · rfl
    · have hfits : cursor + (1 + 0) ≤ image.size := by omega
      simp only [if_pos hfits]
      rfl
    · have hfits : cursor + (1 + (count + 1)) ≤ image.size ↔ count + 1 ≤ left := by omega
      simp only [hfits]
      have hvalue : (0 : BitVec 16) ||| image.operand (cursor + 1) (count + 1) <<< 0 =
          image.operand (cursor + 1) (count + 1) := by
        rw [BitVec.shiftLeft_zero]
        exact BitVec.zero_or
      refine (fetchFrom_operand image _ count left 0 0 (cursor + 1)).trans ?_
      rw [hcount, hvalue, Option.getD_some, Nat.add_assoc]
      split
      · rfl
      · rfl

/-- An instruction that the tables tell lies in the image and is not empty. -/
theorem size_of_entry {cursor : Nat} {instruction : Instruction}
    (h : image.entry cursor = .ok instruction) :
    0 < instruction.size ∧ cursor + instruction.size ≤ image.size := by
  have hfetch : image.fetch cursor = .ok (instruction, cursor + instruction.size) := by
    rw [fetch_eq_entry, h]
    rfl
  obtain ⟨-, hlt, hle⟩ := fetch_ok hfetch
  exact ⟨by omega, hle⟩

theorem entry_of_fetch {cursor next : Nat} {instruction : Instruction}
    (h : image.fetch cursor = .ok (instruction, next)) :
    image.entry cursor = .ok instruction ∧ next = cursor + instruction.size := by
  rw [fetch_eq_entry] at h
  cases hentry : image.entry cursor with
  | error e =>
    rw [hentry] at h
    cases h
  | ok i =>
    rw [hentry] at h
    cases h
    exact ⟨rfl, rfl⟩

theorem entry_of_fetch_error {cursor : Nat} {e : FetchError} (h : image.fetch cursor = .error e) :
    image.entry cursor = .error e := by
  rw [fetch_eq_entry] at h
  cases hentry : image.entry cursor with
  | error e' =>
    rw [hentry] at h
    cases h
    rfl
  | ok i =>
    rw [hentry] at h
    cases h

/-! ### One instruction after another -/

/-- A listing that is **decoded one instruction after another**, from one index to another. -/
inductive Decodes (image : Image) : Nat → List Placed → Nat → Prop
  | nil (cursor : Nat) : Decodes image cursor [] cursor
  | cons {cursor stop : Nat} {instruction : Instruction} {ps : List Placed} :
      image.entry cursor = .ok instruction → Decodes image (cursor + instruction.size) ps stop →
        Decodes image cursor (⟨BitVec.ofNat 16 cursor, instruction⟩ :: ps) stop

end Image

/-- The index after a placed instruction. -/
def Placed.stop (p : Placed) : Nat := p.address.toNat + p.instruction.size

/-- Whether an instruction **covers** a guest address. -/
def Placed.Covers (p : Placed) (a : Address) : Prop :=
  p.address.toNat ≤ a.toNat ∧ a.toNat < p.stop

theorem Placed.stop_ofNat {cursor : Nat} (h : cursor < 0x10000) (instruction : Instruction) :
    (Placed.mk (BitVec.ofNat 16 cursor) instruction).stop = cursor + instruction.size :=
  congrArg (· + instruction.size) (Nat.mod_eq_of_lt h)

theorem Placed.covers_ofNat {cursor : Nat} (h : cursor < 0x10000) (instruction : Instruction)
    (a : Address) :
    (Placed.mk (BitVec.ofNat 16 cursor) instruction).Covers a ↔
      cursor ≤ a.toNat ∧ a.toNat < cursor + instruction.size := by
  have hindex : (BitVec.ofNat 16 cursor).toNat = cursor := Nat.mod_eq_of_lt h
  rw [Covers, stop_ofNat h, hindex]

namespace Image.Decodes

variable {cursor stop : Nat} {listing : List Placed}

theorem le (h : image.Decodes cursor listing stop) : cursor ≤ stop := by
  induction h with
  | nil => exact Nat.le_refl _
  | cons _ _ ih => omega

/-- The instructions lie between the two indices, in guest memory if those do, so that none of them
wraps around. -/
theorem mem_bounds (h : image.Decodes cursor listing stop) (hstop : stop ≤ 0x10000) {p : Placed}
    (hp : p ∈ listing) : cursor ≤ p.address.toNat ∧ p.stop ≤ stop := by
  induction h with
  | nil => cases hp
  | @cons cursor stop instruction ps hentry hrest ih =>
    have hle := hrest.le
    have hpos := (size_of_entry hentry).1
    have hcursor : cursor < 0x10000 := by omega
    rcases List.mem_cons.mp hp with rfl | hp
    · rw [Placed.stop_ofNat hcursor]
      exact ⟨Nat.le_of_eq (Nat.mod_eq_of_lt hcursor).symm, hle⟩
    · obtain ⟨hlow, hhigh⟩ := ih hstop hp
      exact ⟨by omega, hhigh⟩

/-- **Decoded instructions tile their bytes**: every guest address between the two indices belongs
to exactly one of them. The induction is on the instructions. -/
theorem existsUnique_covers (h : image.Decodes cursor listing stop) (hstop : stop ≤ 0x10000)
    {a : Address} (hlow : cursor ≤ a.toNat) (hhigh : a.toNat < stop) :
    ∃! n : Nat, ∃ p, listing[n]? = some p ∧ p.Covers a := by
  induction h with
  | nil => omega
  | @cons cursor stop instruction ps hentry hrest ih =>
    have hcursor : cursor < 0x10000 := by omega
    have hcovers := Placed.covers_ofNat hcursor instruction a
    by_cases hfirst : a.toNat < cursor + instruction.size
    · refine ⟨0, ⟨_, rfl, hcovers.mpr ⟨hlow, hfirst⟩⟩, ?_⟩
      rintro (_ | n) ⟨p, hp, hlater, -⟩
      · rfl
      · -- what comes after the first instruction starts after it
        obtain ⟨hafter, -⟩ := hrest.mem_bounds hstop (List.mem_of_getElem? hp)
        omega
    · obtain ⟨n, hn, hunique⟩ := ih hstop (Nat.le_of_not_lt hfirst) hhigh
      refine ⟨n + 1, hn, ?_⟩
      rintro (_ | m) ⟨q, hq, hlater⟩
      · cases hq
        exact absurd (hcovers.mp hlater).2 hfirst
      · exact congrArg Nat.succ (hunique m ⟨q, hq, hlater⟩)

end Image.Decodes

/-! ### Reading -/

/-- Reading a block **decodes** one instruction after another. -/
theorem Image.Reads.decodes {cursor : Nat} {listing : List Placed} {ending : Ending}
    (h : image.Reads cursor listing ending) : image.Decodes cursor listing ending.cursor := by
  induction h with
  | ends hfetch | fallsThrough hfetch =>
    obtain ⟨hentry, rfl⟩ := entry_of_fetch hfetch
    exact .cons hentry (.nil _)
  | more hfetch _ _ _ _ ih =>
    obtain ⟨hentry, rfl⟩ := entry_of_fetch hfetch
    exact .cons hentry ih

/-- A block consists of instructions that can be **compiled**. -/
theorem Image.Reads.isHandled {cursor : Nat} {listing : List Placed} {ending : Ending}
    (h : image.Reads cursor listing ending) :
    ∀ p ∈ listing, p.instruction.operation.isHandled = true := by
  induction h with
  | ends _ hhandled | fallsThrough _ hhandled =>
    intro p hp
    rwa [List.mem_singleton.mp hp]
  | more _ hhandled _ _ _ ih =>
    intro p hp
    rcases List.mem_cons.mp hp with rfl | hp
    · exact hhandled
    · exact ih p hp

end Dynarec.Guest
