import Dynarec.Word

/-!
# Host registers, operand sizes and conditions

The sixteen general purpose registers of the host with the four bit **numbers** that instructions
name them by, the four operand **sizes**, and the ten branch **conditions** in use with their four
bit codes. Each numbering comes with its inverse.
-/

namespace Dynarec.Host

/-- A general purpose host register. -/
inductive Register
  | rax | rcx | rdx | rbx | rsp | rbp | rsi | rdi
  | r8 | r9 | r10 | r11 | r12 | r13 | r14 | r15
  deriving DecidableEq

namespace Register

/-- The number of a register. -/
def number : Register → BitVec 4
  | rax => 0
  | rcx => 1
  | rdx => 2
  | rbx => 3
  | rsp => 4
  | rbp => 5
  | rsi => 6
  | rdi => 7
  | r8 => 8
  | r9 => 9
  | r10 => 10
  | r11 => 11
  | r12 => 12
  | r13 => 13
  | r14 => 14
  | r15 => 15

/-- The register with a given number. -/
def ofNumber (n : BitVec 4) : Register :=
  match n.toNat with
  | 0 => rax
  | 1 => rcx
  | 2 => rdx
  | 3 => rbx
  | 4 => rsp
  | 5 => rbp
  | 6 => rsi
  | 7 => rdi
  | 8 => r8
  | 9 => r9
  | 10 => r10
  | 11 => r11
  | 12 => r12
  | 13 => r13
  | 14 => r14
  | _ => r15

@[simp]
theorem ofNumber_number (r : Register) : ofNumber r.number = r := by cases r <;> rfl

/-- The three bits of the number that fit the register fields of an instruction. -/
def low (r : Register) : BitVec 3 := r.number.extractLsb' 0 3

/-- Whether the number has a fourth bit, which an instruction keeps in its REX byte. -/
def isExtended (r : Register) : Bool := r.number.msb

/-- Whether the low byte of the register can only be named with a REX byte: without one, the same
field names the second byte of another register. -/
def needsRexAsByte (r : Register) : Bool := r.number.extractLsb' 2 2 == 1

/-- The register with the given extension bit and field. -/
def ofField (extension : Bool) (field : BitVec 3) : Register := ofNumber (.cons extension field)

@[simp]
theorem ofField_low (r : Register) : ofField r.isExtended r.low = r := by cases r <;> rfl

/-- The name of a register. -/
def text : Register → String
  | rax => "Rax"
  | rcx => "Rcx"
  | rdx => "Rdx"
  | rbx => "Rbx"
  | rsp => "Rsp"
  | rbp => "Rbp"
  | rsi => "Rsi"
  | rdi => "Rdi"
  | r8 => "R8"
  | r9 => "R9"
  | r10 => "R10"
  | r11 => "R11"
  | r12 => "R12"
  | r13 => "R13"
  | r14 => "R14"
  | r15 => "R15"

end Register

/-- **Operand size** of an instruction. -/
inductive Size
  | byte | word | dword | qword
  deriving DecidableEq

namespace Size

/-- The number of bits of an operand. -/
abbrev bits : Size → Nat
  | byte => 8
  | word => 16
  | dword => 32
  | qword => 64

/-- The number of bytes of an immediate operand. 64 bit operations take one of 32 bits and extend
its sign. -/
def immediateBytes : Size → Nat
  | byte => 1
  | word => 2
  | dword => 4
  | qword => 4

end Size

/-- A **condition** on the host flags. -/
inductive Condition
  | overflow | notOverflow | below | aboveOrEqual | equal | notEqual
  | belowOrEqual | above | sign | notSign
  deriving DecidableEq

namespace Condition

/-- The code of a condition. -/
def code : Condition → BitVec 4
  | overflow => 0
  | notOverflow => 1
  | below => 2
  | aboveOrEqual => 3
  | equal => 4
  | notEqual => 5
  | belowOrEqual => 6
  | above => 7
  | sign => 8
  | notSign => 9

/-- The condition with a given code. -/
def ofCode? (c : BitVec 4) : Option Condition :=
  match c.toNat with
  | 0 => some overflow
  | 1 => some notOverflow
  | 2 => some below
  | 3 => some aboveOrEqual
  | 4 => some equal
  | 5 => some notEqual
  | 6 => some belowOrEqual
  | 7 => some above
  | 8 => some sign
  | 9 => some notSign
  | _ => none

@[simp]
theorem ofCode?_code (c : Condition) : ofCode? c.code = some c := by cases c <;> rfl

/-- The condition that holds exactly when the given one does not. -/
def invert : Condition → Condition
  | overflow => notOverflow
  | notOverflow => overflow
  | below => aboveOrEqual
  | aboveOrEqual => below
  | equal => notEqual
  | notEqual => equal
  | belowOrEqual => above
  | above => belowOrEqual
  | sign => notSign
  | notSign => sign

@[simp]
theorem invert_invert (c : Condition) : c.invert.invert = c := by cases c <;> rfl

end Condition

end Dynarec.Host
