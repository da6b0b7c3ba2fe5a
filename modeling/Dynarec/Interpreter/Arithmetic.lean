import Dynarec.Guest.Operand

/-!
# Guest arithmetic

The accumulator operations and shifts of the guest processor on bytes, with the two flags that are
kept: Z and C. Sums and differences are formed as numbers, so that the **carry** is the bit that
does not fit and the **borrow** is the case in which the subtrahend is larger.
-/

namespace Dynarec.Interpreter

open Guest (AluOp ShiftOp)

/-- A byte with the flags that come with it. -/
structure Flagged where
  value : Byte
  zero : Bool
  carry : Bool
  deriving DecidableEq

namespace Flagged

/-- A byte that sets Z if it is zero. -/
def ofByte (value : Byte) (carry : Bool) : Flagged := ⟨value, decide (value = 0), carry⟩

/-- The sum of two bytes and a carry. -/
def sum (a b : Byte) (carry : Bool) : Flagged :=
  let n := a.toNat + b.toNat + carry.toNat
  ofByte (BitVec.ofNat 8 n) (decide (256 ≤ n))

/-- The difference of two bytes and a borrow. -/
def difference (a b : Byte) (borrow : Bool) : Flagged :=
  let n := b.toNat + borrow.toNat
  ofByte (BitVec.ofInt 8 (a.toNat - n : Int)) (decide (a.toNat < n))

end Flagged

/-- An **accumulator operation** under the given carry. A comparison yields the difference. -/
def alu (op : AluOp) (a b : Byte) (carry : Bool) : Flagged :=
  match op with
  | .add => .sum a b false
  | .adc => .sum a b carry
  | .sub => .difference a b false
  | .sbc => .difference a b carry
  | .cp => .difference a b false
  | .and => .ofByte (a &&& b) false
  | .xor => .ofByte (a ^^^ b) false
  | .or => .ofByte (a ||| b) false

/-- A **shift or rotation** by one place under the given carry. The carry afterwards is the bit that
is moved out. -/
def shift (op : ShiftOp) (v : Byte) (carry : Bool) : Flagged :=
  let high := v.getLsbD 7
  let low := v.getLsbD 0
  let up (bit : Bool) : Byte := BitVec.ofNat 8 (2 * v.toNat + bit.toNat)
  let down (bit : Bool) : Byte := BitVec.ofNat 8 (v.toNat / 2 + 128 * bit.toNat)
  match op with
  | .rlc => .ofByte (up high) high
  | .rrc => .ofByte (down low) low
  | .rl => .ofByte (up carry) high
  | .rr => .ofByte (down carry) low
  | .sla => .ofByte (up false) high
  | .sra => .ofByte (down high) low
  | .srl => .ofByte (down false) low
  | .swap => .ofByte (v.extractLsb' 0 4 ++ v.extractLsb' 4 4) false

end Dynarec.Interpreter
