import Dynarec.Host.Register

/-!
# The host flags

The six **arithmetic flags** of the host, their places in the flags word that is pushed and popped,
and the meaning of the branch conditions. Besides them the flags word has a bit that is always set
and the interrupt flag, which is set while generated code runs and which that code cannot change.
-/

namespace Dynarec.Host

/-- The arithmetic flags. -/
structure Flags where
  carry : Bool
  parity : Bool
  adjust : Bool
  zero : Bool
  sign : Bool
  overflow : Bool
  deriving DecidableEq

namespace Flags

/-- The flags in a flags word. -/
def ofWord (v : HostWord) : Flags where
  carry := v.getLsbD 0
  parity := v.getLsbD 2
  adjust := v.getLsbD 4
  zero := v.getLsbD 6
  sign := v.getLsbD 7
  overflow := v.getLsbD 11

/-- The flags word. -/
def toWord (f : Flags) : HostWord :=
  BitVec.ofNat 64 (0x202 + f.carry.toNat + 4 * f.parity.toNat + 16 * f.adjust.toNat +
    64 * f.zero.toNat + 128 * f.sign.toNat + 2048 * f.overflow.toNat)

@[simp]
theorem ofWord_toWord (f : Flags) : ofWord f.toWord = f := by
  obtain ⟨c, p, a, z, s, o⟩ := f
  revert c p a z s o
  decide

end Flags

/-- Whether a condition **holds** under the given flags. -/
def Condition.holds (f : Flags) : Condition → Bool
  | overflow => f.overflow
  | notOverflow => !f.overflow
  | below => f.carry
  | aboveOrEqual => !f.carry
  | equal => f.zero
  | notEqual => !f.zero
  | belowOrEqual => f.carry || f.zero
  | above => !(f.carry || f.zero)
  | sign => f.sign
  | notSign => !f.sign

@[simp]
theorem Condition.holds_invert (c : Condition) (f : Flags) : c.invert.holds f = !c.holds f := by
  cases c <;> simp [invert, holds]

end Dynarec.Host
