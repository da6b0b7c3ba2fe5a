import Dynarec.Guest.Operation

/-!
# Written form of guest operations

The trace of a compilation and the text of some errors show operations in **constructor form**: the
name of the operation, and in parentheses its operands, separated by commas. All numbers are
decimal; the offsets of relative jumps and of stack pointer arithmetic are signed.
-/

namespace Dynarec.Guest

/-- The written form `name(arg, …)`. -/
private def applied (name : String) (args : List String) : String :=
  name ++ "(" ++ ", ".intercalate args ++ ")"

/-- An unsigned number. -/
private def unsigned {w : Nat} (v : BitVec w) : String := toString v.toNat

/-- A signed number. -/
private def signed {w : Nat} (v : BitVec w) : String := toString v.toInt

/-- The name of an 8 bit register. -/
def Reg8.text : Reg8 → String
  | a => "A"
  | b => "B"
  | c => "C"
  | d => "D"
  | e => "E"
  | h => "H"
  | l => "L"

/-- The name of a register pair. -/
def Reg16.text : Reg16 → String
  | bc => "BC"
  | de => "DE"
  | hl => "HL"
  | sp => "SP"

/-- The name of a stack pair. -/
def StackPair.text : StackPair → String
  | bc => "BC"
  | de => "DE"
  | hl => "HL"
  | af => "AF"

/-- The name of a condition. -/
def Condition.text : Condition → String
  | notZero => "NotZero"
  | zero => "Zero"
  | notCarry => "NotCarry"
  | carry => "Carry"

/-- The written form of the condition of a branch, which may have none. -/
private def branchConditionText : Option Condition → String
  | none => "None"
  | some condition => applied "Some" [condition.text]

/-- The written form of an 8 bit operand. -/
def Operand8.text : Operand8 → String
  | register r => applied "Register" [r.text]
  | immediate value => applied "Immediate" [unsigned value]
  | indirectHl => "IndirectHl"
  | indirect pair => applied "Indirect" [pair.text]
  | indirectHlIncrement => "IndirectHlIncrement"
  | indirectHlDecrement => "IndirectHlDecrement"
  | absolute address => applied "Absolute" [unsigned address]
  | highAbsolute offset => applied "HighAbsolute" [unsigned offset]
  | highC => "HighC"

/-- The name of an accumulator operation. -/
def AluOp.text : AluOp → String
  | add => "Add"
  | adc => "Adc"
  | sub => "Sub"
  | sbc => "Sbc"
  | and => "And"
  | xor => "Xor"
  | or => "Or"
  | cp => "Cp"

/-- The name of a shift. -/
def ShiftOp.text : ShiftOp → String
  | rlc => "Rlc"
  | rrc => "Rrc"
  | rl => "Rl"
  | rr => "Rr"
  | sla => "Sla"
  | sra => "Sra"
  | swap => "Swap"
  | srl => "Srl"

/-- The written form of an operation. -/
def Operation.text : Operation → String
  | nop => "Nop"
  | stop => "Stop"
  | halt => "Halt"
  | di => "Di"
  | ei => "Ei"
  | daa => "Daa"
  | cpl => "Cpl"
  | scf => "Scf"
  | ccf => "Ccf"
  | load dst src => applied "Load" [dst.text, src.text]
  | loadImmediate16 pair value => applied "LoadImmediate16" [pair.text, unsigned value]
  | storeStackPointer address => applied "StoreStackPointer" [unsigned address]
  | loadStackPointerFromHl => "LoadStackPointerFromHl"
  | loadHlFromStackOffset offset => applied "LoadHlFromStackOffset" [signed offset]
  | addStackPointer offset => applied "AddStackPointer" [signed offset]
  | alu op src => applied "Alu" [op.text, src.text]
  | increment target => applied "Increment" [target.text]
  | decrement target => applied "Decrement" [target.text]
  | increment16 pair => applied "Increment16" [pair.text]
  | decrement16 pair => applied "Decrement16" [pair.text]
  | addHl pair => applied "AddHl" [pair.text]
  | rotateAccumulator op => applied "RotateAccumulator" [op.text]
  | shift op target => applied "Shift" [op.text, target.text]
  | bit index target => applied "Bit" [unsigned index, target.text]
  | reset index target => applied "Reset" [unsigned index, target.text]
  | set index target => applied "Set" [unsigned index, target.text]
  | jump condition target => applied "Jump" [branchConditionText condition, unsigned target]
  | jumpHl => "JumpHl"
  | jumpRelative condition offset =>
    applied "JumpRelative" [branchConditionText condition, signed offset]
  | call condition target => applied "Call" [branchConditionText condition, unsigned target]
  | ret condition => applied "Return" [branchConditionText condition]
  | retInterrupt => "ReturnInterrupt"
  | restart vector => applied "Restart" [unsigned vector]
  | push pair => applied "Push" [pair.text]
  | pop pair => applied "Pop" [pair.text]

end Dynarec.Guest
