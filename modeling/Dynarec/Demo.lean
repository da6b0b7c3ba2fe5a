import Dynarec.Bridge.Interface
import Dynarec.Log
import Dynarec.Machine.State

/-!
# The demonstration machine

A small guest machine for the command line: plain memory with a **serial line**. Its device is the
list of messages that the guest's accesses gave rise to.
-/

namespace Dynarec.Demo

open Bridge (GuestMemory MemoryInterface)

/-- The host around the generated code: where the window, the execution context, the memory device
and the host stack lie. -/
def hostEnvironment : Machine.Environment where
  layout := ⟨0x7F0000010000, 0x555500001000⟩
  device := 0x555500002000
  stackTop := 0x7FFFFFFFE008
  scratch := .replicate 0
  flags := .ofWord 0

/-- The messages of the demonstration machine, in order. -/
abbrev Messages := Array String

/-- The serial data register. -/
def serialData : Address := 0xFF01

/-- The text that stands in front of a message: the elapsed clock cycles. -/
def stamp (cycles : HostWord) (text : String) : String :=
  "[" ++ toString cycles.toNat ++ "] " ++ text

/-- Memory after a byte is written: to the serial line, to the ignored bank control registers in the
lower half, or to the window. -/
def write (a : Address) (v : Byte) (cycles : HostWord) (m : GuestMemory Messages) :
    GuestMemory Messages :=
  if a = serialData then
    { m with device := m.device.push (stamp cycles ("serial out " ++ paddedHex 2 v.toNat)) }
  else if a.toNat < 0x8000 then m
  else { m with window := m.window.set a v }

/-- What a call leaves behind in registers that it need not preserve. -/
def residue : Bridge.Residue := ⟨fun _ => 0, .ofWord 0⟩

/-- The memory interface of the demonstration machine, which serves words by bytes. -/
def interface : MemoryInterface Messages where
  read8 a _ m := (m.window.get a, m)
  write8 := write
  read16 := MemoryInterface.readWordByBytes fun a _ m => (m.window.get a, m)
  write16 := MemoryInterface.writeWordByBytes write
  setInterruptMasterEnable _ _ m := m
  residue _ _ _ := residue

/-- A program that adds up the numbers from 16 down to 1, sends the sum down the serial line and
stops. -/
def program : List Byte :=
  [0x31, 0xFE, 0xFF, 0x06, 0x10, 0xAF, 0x80, 0x05, 0x20, 0xFC, 0xE0, 0x01, 0x76, 0x10, 0x00, 0x00]

end Dynarec.Demo
