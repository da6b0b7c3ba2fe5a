import Dynarec.Host.Instruction

/-!
# Addresses shared with generated code

Generated code is tied to two host addresses: the **window base**, where guest address 0 lies, and
the **execution context**. The context is a record of seven fields of eight bytes: the memory device
that handlers work on, the cycle counter as of the last handler call, and the entry points of the
five **handlers**.
-/

namespace Dynarec.Bridge

/-- An entry point for what generated code cannot do in the window. -/
inductive Handler
  | read8 | write8 | read16 | write16 | interruptMasterEnable
  deriving DecidableEq

/-- The host addresses that generated code depends on. -/
structure Layout where
  /-- The host address of guest address 0. -/
  windowBase : HostWord
  /-- The host address of the execution context. -/
  context : HostWord
  deriving DecidableEq

/-- The offset of the memory device in the execution context. -/
def deviceField : BitVec 32 := 0

/-- The offset of the cycle counter in the execution context. -/
def cyclesField : BitVec 32 := 8

namespace Handler

/-- The offset of a handler's entry point in the execution context. -/
def field : Handler → BitVec 32
  | read8 => 16
  | write8 => 24
  | read16 => 32
  | write16 => 40
  | interruptMasterEnable => 48

/-- The handler whose entry point lies at an offset of the execution context. -/
def ofField? (offset : HostWord) : Option Handler :=
  if offset = 16 then some read8
  else if offset = 24 then some write8
  else if offset = 32 then some read16
  else if offset = 40 then some write16
  else if offset = 48 then some interruptMasterEnable
  else none

@[simp]
theorem ofField?_field (h : Handler) : ofField? (h.field.setWidth 64) = some h := by
  cases h <;> decide

/-- The argument register that receives the cycle count, the one after the handler's operands. -/
def cyclesArgument : Handler → Host.Register
  | read8 | read16 | interruptMasterEnable => .rdx
  | write8 | write16 => .rcx

end Handler

end Dynarec.Bridge
