import Dynarec.Assembly.Code
import Dynarec.Bridge.Layout
import Dynarec.Codegen.Binding

/-!
# Access to guest memory

A guest access has a **fast path**, a plain host access to the window, and a **slow path**, a call
of the handler for its width and direction. The window serves

| access       | guest addresses       |
|--------------|-----------------------|
| 8 bit read   | below `0xFE00`        |
| 8 bit write  | `0x8000` to `0xFDFF`  |
| 16 bit read  | below `0xFDFF`        |
| 16 bit write | `0x8000` to `0xFDFE`  |

so that both bytes of a word lie below `0xFE00`. Stores below `0x8000` control the banks of a
cartridge and must reach their handler. The window has the byte order of the guest, so words are
moved as they are. For an address known while compiling only the path it takes is laid out.
-/

namespace Dynarec.Codegen

open Host (Instruction Memory)
open Assembly (Code)
open Bridge (Handler Layout)

/-! ### Handler calls -/

/-- **Calls a handler**, whose operands are already in `rsi` (the address, or whether interrupts are
enabled) and `rdx` (the value). The cycle counter is stored in the execution context, passed after
the operands and kept on the host stack during the call. The result is in `rax`; the bits above it,
the host flags and all other registers that a callee may change are undefined afterwards. -/
def callHandler (layout : Layout) (handler : Handler) : List Instruction :=
  [.mov .qword context (.immediate layout.context),
    .store .qword ((Memory.ofBase context).offset Bridge.cyclesField) cycleCounter,
    .push cycleCounter,
    .load .qword window ((Memory.ofBase context).offset Bridge.deviceField),
    .mov .qword handler.cyclesArgument (.register cycleCounter),
    .call (some (.memory ((Memory.ofBase context).offset handler.field))),
    .pop cycleCounter]

/-! ### Kinds of access -/

/-- An access by width and direction. -/
structure Access where
  wide : Bool
  write : Bool
  deriving DecidableEq

namespace Access

/-- The lowest address of the fast path. -/
def lower (a : Access) : Nat := if a.write then 0x8000 else 0

/-- The first address past the fast path. -/
def upper (a : Access) : Nat := if a.wide then 0xFDFF else 0xFE00

/-- Whether the window serves an access at the given guest address. -/
def isFast (a : Access) (target : Address) : Bool :=
  decide (a.lower ≤ target.toNat) && decide (target.toNat < a.upper)

/-- The handler of the slow path. -/
def handler (a : Access) : Handler :=
  match a.wide, a.write with
  | false, false => .read8
  | false, true => .write8
  | true, false => .read16
  | true, true => .write16

/-- The access in the window, at the guest address in `rsi`. -/
def fastPath (layout : Layout) (a : Access) : List Instruction :=
  let place := (Memory.ofBase window).indexed address
  let move : Instruction :=
    match a.wide, a.write with
    | wide, false => .movzx wide result (.memory place)
    | false, true => .store .byte place value
    | true, true => .store .word place value
  [.mov .qword window (.immediate layout.windowBase), move]

/-- The access through the handler, whose result is extended. -/
def slowPath (layout : Layout) (a : Access) : List Instruction :=
  callHandler layout a.handler ++
    if a.write then [] else [.movzx a.wide result (.register result)]

end Access

/-! ### Emission -/

/-- Where the guest address of an access comes from. -/
inductive GuestAddress
  /-- It is in `rsi`, zero-extended. -/
  | dynamic
  /-- It is known while compiling. -/
  | constant (target : Address)
  deriving DecidableEq

/-- Compares a register with a 32 bit constant. -/
def compare (r : Host.Register) (bound : Nat) : Instruction :=
  .alu .cmp .dword r (.immediate (BitVec.ofNat 64 bound))

/-- **Performs an access.** A read leaves its result zero-extended in `rax`; a write takes the low
bits of `rdx`. -/
def Access.code (layout : Layout) (a : Access) : GuestAddress → Code
  | .constant target =>
    .straight (.mov .dword address (.immediate (target.setWidth 64)) ::
      if a.isFast target then a.fastPath layout else a.slowPath layout)
  | .dynamic =>
    let upperTest : List Instruction × Host.Condition :=
      ([compare address a.upper], .aboveOrEqual)
    .choose
      (if 0 < a.lower then [([compare address a.lower], .below), upperTest] else [upperTest])
      (.straight (a.fastPath layout)) (.straight (a.slowPath layout))

/-- Reads a byte. -/
def read8 (layout : Layout) (target : GuestAddress) : Code :=
  Access.code layout ⟨false, false⟩ target

/-- Writes a byte. -/
def write8 (layout : Layout) (target : GuestAddress) : Code :=
  Access.code layout ⟨false, true⟩ target

/-- Reads a word. -/
def read16 (layout : Layout) (target : GuestAddress) : Code :=
  Access.code layout ⟨true, false⟩ target

/-- Writes a word. -/
def write16 (layout : Layout) (target : GuestAddress) : Code :=
  Access.code layout ⟨true, true⟩ target

end Dynarec.Codegen
