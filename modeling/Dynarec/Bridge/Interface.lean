import Dynarec.Bridge.Layout
import Dynarec.Guest.Window
import Dynarec.Host.Flags

/-!
# Memory interfaces

What generated code cannot do in the window it asks a **memory interface** for: reads and writes
outside of plain memory, and changes of the interrupt master enable flag. A request comes with the
clock cycles elapsed so far. Serving it may change the state of the memory device and any byte of
the window, and leaves a **residue** in the host registers and flags that a callee need not
preserve.
-/

namespace Dynarec.Bridge

open Guest (Window)
open Host (Register Flags)

/-- Guest memory: the window, and the **device** behind it. -/
structure GuestMemory (σ : Type) where
  window : Window
  device : σ

/-- A **request** to a memory interface. -/
inductive Request
  | read8 (address : Address)
  | write8 (address : Address) (value : Byte)
  | read16 (address : Address)
  | write16 (address : Address) (value : BitVec 16)
  | interruptMasterEnable (enabled : Bool)
  deriving DecidableEq

/-- What a call leaves in the registers and flags that a callee may change. -/
structure Residue where
  register : Register → HostWord
  flags : Flags

/-- A memory interface over devices of type `σ`. The number passed to every function is the elapsed
clock count. -/
structure MemoryInterface (σ : Type) where
  read8 : Address → HostWord → GuestMemory σ → Byte × GuestMemory σ
  write8 : Address → Byte → HostWord → GuestMemory σ → GuestMemory σ
  read16 : Address → HostWord → GuestMemory σ → BitVec 16 × GuestMemory σ
  write16 : Address → BitVec 16 → HostWord → GuestMemory σ → GuestMemory σ
  setInterruptMasterEnable : Bool → HostWord → GuestMemory σ → GuestMemory σ
  residue : Request → HostWord → GuestMemory σ → Residue

namespace MemoryInterface

variable {σ : Type}

/-- A word read as two bytes, low byte first, the second one at the next address modulo `2 ^ 16`. -/
def readWordByBytes (read : Address → HostWord → GuestMemory σ → Byte × GuestMemory σ)
    (a : Address) (cycles : HostWord) (m : GuestMemory σ) : BitVec 16 × GuestMemory σ :=
  let (low, m) := read a cycles m
  let (high, m) := read (a + 1) cycles m
  (high ++ low, m)

/-- A word written as two bytes, low byte first, the second one at the next address modulo
`2 ^ 16`. -/
def writeWordByBytes (write : Address → Byte → HostWord → GuestMemory σ → GuestMemory σ)
    (a : Address) (value : BitVec 16) (cycles : HostWord) (m : GuestMemory σ) : GuestMemory σ :=
  write (a + 1) (value.extractLsb' 8 8) cycles (write a (value.extractLsb' 0 8) cycles m)

/-- The interface that serves words **by bytes**. -/
def byBytes (i : MemoryInterface σ) : MemoryInterface σ :=
  { i with read16 := readWordByBytes i.read8, write16 := writeWordByBytes i.write8 }

/-- Serves a request. The result of a byte read is zero-extended; other requests than reads have no
result. -/
def serve (i : MemoryInterface σ) (request : Request) (cycles : HostWord) (m : GuestMemory σ) :
    BitVec 16 × GuestMemory σ :=
  match request with
  | .read8 a => let (v, m) := i.read8 a cycles m; (v.setWidth 16, m)
  | .write8 a v => (0, i.write8 a v cycles m)
  | .read16 a => i.read16 a cycles m
  | .write16 a v => (0, i.write16 a v cycles m)
  | .interruptMasterEnable enabled => (0, i.setInterruptMasterEnable enabled cycles m)

end MemoryInterface

end Dynarec.Bridge
