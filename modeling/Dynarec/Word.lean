/-!
# Machine words

The three word types that everything else is written in: **bytes**, **guest addresses** (16 bits,
also the guest's register pairs) and **host words** (64 bits). Words of several bytes are laid out
**little endian**, in guest memory as well as in the fields of host instructions.

`bytesLE` writes a word and `wordLE` reads one back; `wordLE_bytesLE` says that nothing is lost.
-/

namespace Dynarec

/-- An 8 bit word. -/
abbrev Byte := BitVec 8

/-- A 16 bit **guest address**. Address arithmetic wraps at the top of memory. -/
abbrev Address := BitVec 16

/-- A 64 bit **host word**. -/
abbrev HostWord := BitVec 64

/-- The lowest `count` bytes of a word, least significant byte first. -/
def bytesLE {w : Nat} : Nat → BitVec w → List Byte
  | 0, _ => []
  | count + 1, v => v.setWidth 8 :: bytesLE count (v >>> 8)

/-- The word whose bytes are given, least significant byte first. Bytes past the width of the
result are dropped. -/
def wordLE (w : Nat) : List Byte → BitVec w
  | [] => 0
  | b :: bs => b.setWidth w ||| wordLE w bs <<< 8

@[simp]
theorem length_bytesLE {w : Nat} (count : Nat) (v : BitVec w) :
    (bytesLE count v).length = count := by
  induction count generalizing v with
  | zero => rfl
  | succ count ih => simp [bytesLE, ih]

theorem getLsbD_wordLE_bytesLE {w w' : Nat} (count : Nat) (v : BitVec w) (i : Nat) :
    (wordLE w' (bytesLE count v)).getLsbD i =
      (decide (i < w') && decide (i < 8 * count) && v.getLsbD i) := by
  induction count generalizing v i with
  | zero => simp [bytesLE, wordLE]
  | succ count ih =>
    simp only [bytesLE, wordLE, BitVec.getLsbD_or, BitVec.getLsbD_setWidth,
      BitVec.getLsbD_shiftLeft, ih, BitVec.getLsbD_ushiftRight]
    by_cases hi : i < 8
    · simp [hi, show i < 8 * (count + 1) by omega]
    · have h8 : 8 + (i - 8) = i := by omega
      by_cases hw : i < w'
      · simp [hi, hw, h8, show i - 8 < w' by omega,
          show (i - 8 < 8 * count) = (i < 8 * (count + 1)) from propext (by omega)]
      · simp [hw]

/-- Reading back a word that was written with all of its bytes. -/
theorem wordLE_bytesLE {w count : Nat} (v : BitVec w) (h : w ≤ 8 * count) :
    wordLE w (bytesLE count v) = v := by
  apply BitVec.eq_of_getLsbD_eq
  intro i hi
  rw [getLsbD_wordLE_bytesLE]
  simp [hi, show i < 8 * count by omega]

end Dynarec
