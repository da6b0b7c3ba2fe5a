import Dynarec.Host.Flags
import Dynarec.Host.Instruction

/-!
# Host arithmetic

The result and the flags of the arithmetic and shift groups at every operand width. Where the host
leaves a flag undefined, one value is picked; generated code never looks at such a flag.
-/

namespace Dynarec.Host

/-- Whether the low byte of a number has an even number of ones. -/
def evenParity (n : Nat) : Bool :=
  let n := n ^^^ (n >>> 4)
  let n := n ^^^ (n >>> 2)
  !(n ^^^ (n >>> 1)).testBit 0

/-- The flags of a result, given the ones that depend on how it came about. -/
def resultFlags {w : Nat} (r : BitVec w) (carry adjust overflow : Bool) : Flags where
  carry := carry
  parity := evenParity r.toNat
  adjust := adjust
  zero := r == 0
  sign := r.msb
  overflow := overflow

/-- The **sum** of two words and a carry. -/
def addWithCarry {w : Nat} (a b : BitVec w) (carry : Bool) : BitVec w × Flags :=
  let r := a + b + BitVec.ofNat w carry.toNat
  (r, resultFlags r (decide (1 <<< w ≤ a.toNat + b.toNat + carry.toNat))
    ((a ^^^ b ^^^ r).getLsbD 4) (a.msb == b.msb && r.msb != a.msb))

/-- The **difference** of two words and a borrow. -/
def subWithBorrow {w : Nat} (a b : BitVec w) (borrow : Bool) : BitVec w × Flags :=
  let r := a - b - BitVec.ofNat w borrow.toNat
  (r, resultFlags r (decide (a.toNat < b.toNat + borrow.toNat))
    ((a ^^^ b ^^^ r).getLsbD 4) (a.msb != b.msb && r.msb != a.msb))

/-- The flags of a bitwise operation. -/
def logicFlags {w : Nat} (r : BitVec w) : Flags := resultFlags r false false false

namespace AluOp

/-- The result and flags of an arithmetic operation. A comparison yields the difference. -/
def apply {w : Nat} (op : AluOp) (a b : BitVec w) (carry : Bool) : BitVec w × Flags :=
  match op with
  | add => addWithCarry a b false
  | adc => addWithCarry a b carry
  | sub => subWithBorrow a b false
  | sbb => subWithBorrow a b carry
  | cmp => subWithBorrow a b false
  | and => (a &&& b, logicFlags (a &&& b))
  | or => (a ||| b, logicFlags (a ||| b))
  | xor => (a ^^^ b, logicFlags (a ^^^ b))

/-- Whether an arithmetic operation writes its result. -/
def writes (op : AluOp) : Bool := decide (op ≠ cmp)

end AluOp

namespace ShiftOp

/-- The number of places that an operand is moved by: the amount modulo 32, or modulo 64 for 64 bit
operands. -/
def places (w : Nat) (amount : Byte) : Nat :=
  if w = 64 then amount.toNat % 64 else amount.toNat % 32

/-- The result and flags of moving a word by a nonzero number of places. Rotations change the carry
and overflow flags only. -/
def move {w : Nat} (op : ShiftOp) (a : BitVec w) (n : Nat) (f : Flags) : BitVec w × Flags :=
  match op with
  | rol =>
    let r := a.rotateLeft n
    (r, { f with carry := r.getLsbD 0, overflow := r.msb != r.getLsbD 0 })
  | ror =>
    let r := a.rotateRight n
    (r, { f with carry := r.msb, overflow := r.msb != r.getLsbD (w - 2) })
  | rcl =>
    let r := (BitVec.cons f.carry a).rotateLeft n
    (r.setWidth w, { f with carry := r.msb, overflow := r.msb != r.getLsbD (w - 1) })
  | rcr =>
    let r := (BitVec.cons f.carry a).rotateRight n
    (r.setWidth w, { f with carry := r.msb, overflow := r.getLsbD (w - 1) != r.getLsbD (w - 2) })
  | shl =>
    let r := a <<< n
    let carry := decide (n ≤ w) && a.getLsbD (w - n)
    (r, resultFlags r carry false (r.msb != carry))
  | shr =>
    let r := a >>> n
    (r, resultFlags r (a.getLsbD (n - 1)) false a.msb)
  | sar =>
    let r := a.sshiftRight n
    (r, resultFlags r ((a.sshiftRight (n - 1)).getLsbD 0) false false)

/-- The result and flags of a shift. Moving by no places changes nothing. -/
def apply {w : Nat} (op : ShiftOp) (a : BitVec w) (amount : Byte) (f : Flags) : BitVec w × Flags :=
  if places w amount = 0 then (a, f) else op.move a (places w amount) f

end ShiftOp

end Dynarec.Host
