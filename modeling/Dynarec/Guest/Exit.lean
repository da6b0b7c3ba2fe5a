import Dynarec.Word

/-!
# Exit reasons

A block of guest code hands control back after a branch, on `HALT` or on `STOP`. Generated code
gives the reason as a number.
-/

namespace Dynarec.Guest

/-- **Why a block hands control back.** -/
inductive ExitReason
  | branch
  | halt
  | stop
  deriving DecidableEq

namespace ExitReason

/-- The number that stands for a reason. -/
def code : ExitReason → HostWord
  | branch => 0
  | halt => 1
  | stop => 2

/-- The reason that a number stands for. -/
def ofCode? (c : HostWord) : Option ExitReason :=
  if c = 0 then some branch
  else if c = 1 then some halt
  else if c = 2 then some stop
  else none

@[simp]
theorem ofCode?_code (r : ExitReason) : ofCode? r.code = some r := by cases r <;> decide

/-- The name of a reason. -/
def text : ExitReason → String
  | branch => "Branch"
  | halt => "Halt"
  | stop => "Stop"

end ExitReason

end Dynarec.Guest
