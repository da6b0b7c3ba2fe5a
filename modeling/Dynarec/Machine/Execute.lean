import Dynarec.Host.Arithmetic
import Dynarec.Machine.State

/-!
# Execution of one instruction

`execute` is the effect of a host instruction on a machine state and where execution goes on
afterwards (`Flow`). A call of a handler is one step: the request is taken from the argument
registers, the memory interface serves it, and the registers and flags that a callee may change hold
what it left there.
-/

namespace Dynarec.Machine

open Bridge (Handler MemoryInterface Request Residue)
open Host (Register Registers Size Memory Instruction Source Place)

variable {σ : Type}

/-- Where execution goes on after an instruction. -/
inductive Flow
  | next
  /-- At a distance from the end of the instruction. -/
  | jump (displacement : BitVec 32)
  /-- Where the code was called. -/
  | ret
  deriving DecidableEq

/-! ### Memory operands -/

/-- Reads memory. Bytes and words are read from the window, 64 bit words from the device and cycles
fields of the execution context. -/
def readMemory (env : Environment) (s : State σ) (size : Size) (a : HostWord) :
    Except Trap (BitVec size.bits) :=
  match size, locate env.layout (size.bits / 8) a with
  | .byte, some (.window o) => .ok (s.memory.window.get o)
  | .word, some (.window o) => .ok (s.memory.window.getWord o)
  | .qword, some (.context o) =>
    if o = Bridge.deviceField.setWidth 64 then .ok env.device
    else if o = Bridge.cyclesField.setWidth 64 then .ok s.contextCycles
    else .error (.badAddress a)
  | _, _ => .error (.badAddress a)

/-- Writes memory: bytes and words of the window, and the cycles field of the execution context. -/
def writeMemory (env : Environment) (s : State σ) (size : Size) (a : HostWord)
    (v : BitVec size.bits) : Except Trap (State σ) :=
  match size, v, locate env.layout (size.bits / 8) a with
  | .byte, v, some (.window o) => .ok (s.setWindow (s.memory.window.set o v))
  | .word, v, some (.window o) => .ok (s.setWindow (s.memory.window.setWord o v))
  | .qword, v, some (.context o) =>
    if o = Bridge.cyclesField.setWidth 64 then .ok { s with contextCycles := v }
    else .error (.badAddress a)
  | _, _, _ => .error (.badAddress a)

/-! ### Handler calls -/

/-- The registers that a callee may change. -/
def callerSaved : List Register := [.rax, .rcx, .rdx, .rsi, .rdi, .r8, .r9, .r10, .r11]

/-- The request in the argument registers of a handler. -/
def requestOf (handler : Handler) (registers : Registers) : Request :=
  let address := (registers.get .rsi).setWidth 16
  match handler with
  | .read8 => .read8 address
  | .write8 => .write8 address ((registers.get .rdx).setWidth 8)
  | .read16 => .read16 address
  | .write16 => .write16 address ((registers.get .rdx).setWidth 16)
  | .interruptMasterEnable => .interruptMasterEnable ((registers.get .rsi).getLsbD 0)

/-- The value of `rax` after a handler: the result in its low bits, the residue above. -/
def resultWord (handler : Handler) (residue : HostWord) (v : BitVec 16) : HostWord :=
  match handler with
  | .read8 => Size.update .byte residue (v.setWidth 8)
  | .read16 => Size.update .word residue v
  | _ => residue

/-- The registers after a handler. -/
def registersAfter (handler : Handler) (residue : Residue) (v : BitVec 16) (registers : Registers) :
    Registers :=
  (callerSaved.foldl (fun rs r => rs.set r (residue.register r)) registers).set .rax
    (resultWord handler (residue.register .rax) v)

/-- **Calls a handler.** The stack must be aligned to 16 bytes, and the first argument must be the
memory device. -/
def callHandler (env : Environment) (i : MemoryInterface σ) (handler : Handler) (s : State σ) :
    Except Trap (State σ) :=
  if s.isBalanced env && (s.registers.get .rsp).setWidth 4 == 0 &&
      s.registers.get .rdi == env.device then
    let request := requestOf handler s.registers
    let cycles := s.registers.get handler.cyclesArgument
    let residue := i.residue request cycles s.memory
    let (v, memory) := i.serve request cycles s.memory
    .ok { s with
      registers := registersAfter handler residue v s.registers
      flags := residue.flags
      memory }
  else .error .badCall

/-- The handler whose entry point lies at a host address. -/
def handlerAt (env : Environment) (a : HostWord) : Option Handler :=
  match locate env.layout 8 a with
  | some (.context o) => Handler.ofField? o
  | _ => none

/-! ### Instructions -/

/-- The value of a register or immediate operand. -/
def sourceValue (s : State σ) (size : Size) : Source → BitVec size.bits
  | .register r => s.registers.read size r
  | .immediate v => v.setWidth _

/-- The state after a register is written. -/
def writeRegister (s : State σ) (size : Size) (r : Register) (v : BitVec size.bits) : State σ :=
  { s with registers := s.registers.write size r v }

/-- **Executes** an instruction. -/
def execute (env : Environment) (i : MemoryInterface σ) (s : State σ) :
    Instruction → Except Trap (Flow × State σ)
  | .nop => .ok (.next, s)
  | .ret =>
    if s.isBalanced env then
      if s.stack.isEmpty then .ok (.ret, s) else .error .foreignStack
    else .error .unbalancedStack
  | .pushFlags => (s.push env s.flags.toWord).map (.next, ·)
  | .popFlags => (s.pop env).map fun (v, s) => (.next, { s with flags := .ofWord v })
  | .push src => (s.push env (s.registers.get src)).map (.next, ·)
  | .pop dst => (s.pop env).map fun (v, s) => (.next, s.setRegister dst v)
  | .mov size dst src => .ok (.next, writeRegister s size dst (sourceValue s size src))
  | .load size dst src =>
    (readMemory env s size (effectiveAddress s.registers src)).map fun v =>
      (.next, writeRegister s size dst v)
  | .store size dst src =>
    (writeMemory env s size (effectiveAddress s.registers dst) (s.registers.read size src)).map
      (.next, ·)
  | .lea size dst src =>
    .ok (.next, writeRegister s size dst ((effectiveAddress s.registers src).setWidth _))
  | .movzx false dst (.register src) =>
    .ok (.next, s.setRegister dst ((s.registers.read .byte src).setWidth 64))
  | .movzx true dst (.register src) =>
    .ok (.next, s.setRegister dst ((s.registers.read .word src).setWidth 64))
  | .movzx false dst (.memory src) =>
    (readMemory env s .byte (effectiveAddress s.registers src)).map fun v =>
      (.next, s.setRegister dst (v.setWidth 64))
  | .movzx true dst (.memory src) =>
    (readMemory env s .word (effectiveAddress s.registers src)).map fun v =>
      (.next, s.setRegister dst (v.setWidth 64))
  | .alu op size dst src =>
    let (v, flags) := op.apply (s.registers.read size dst) (sourceValue s size src) s.flags.carry
    let s := { s with flags }
    .ok (.next, if op.writes then writeRegister s size dst v else s)
  | .test size dst src =>
    .ok (.next, { s with
      flags := Host.logicFlags (s.registers.read size dst &&& sourceValue s size src) })
  | .shift op size dst amount =>
    let (v, flags) := op.apply (s.registers.read size dst) amount s.flags
    .ok (.next, { writeRegister s size dst v with flags })
  | .bitTest src bit =>
    .ok (.next, { s with
      flags := { s.flags with carry := (s.registers.get src).getLsbD (bit.toNat % 32) } })
  | .branch condition _ displacement =>
    if (condition.map fun c => c.holds s.flags).getD true then .ok (.jump displacement, s)
    else .ok (.next, s)
  | .call (some (.memory m)) =>
    match handlerAt env (effectiveAddress s.registers m) with
    | some handler => (callHandler env i handler s).map (.next, ·)
    | none => .error .badCall
  | .call _ => .error .badCall

end Dynarec.Machine
