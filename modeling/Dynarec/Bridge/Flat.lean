import Dynarec.Bridge.Interface

/-!
# Flat memory

The simplest memory device: requests go to the window itself and are **recorded** with their clock
count. Optionally the lower half of memory is **protected**, as if it were read-only memory: writes
to it are recorded and otherwise ignored, byte by byte. Words are served as one request (`flat`) or
as two requests for bytes (`flat.byBytes`).
-/

namespace Dynarec.Bridge

open Guest (Window)

/-- A device that keeps the requests it has served, with their clock counts, in order. -/
abbrev Recorder := Array (Request × HostWord)

namespace Flat

/-- Memory after a request has been recorded. -/
def record (request : Request) (cycles : HostWord) (m : GuestMemory Recorder) :
    GuestMemory Recorder :=
  { m with device := m.device.push (request, cycles) }

/-- The window after a byte is stored, unless protection forbids it. -/
def storeByte (protection : Bool) (w : Window) (a : Address) (value : Byte) : Window :=
  if protection && decide (a.toNat < 0x8000) then w else w.set a value

/-- What flat memory leaves in the registers that it need not preserve: nothing of use. -/
def residue : Residue := ⟨fun _ => 0xDEADBEEFDEADBEEF, ⟨true, false, true, false, true, true⟩⟩

end Flat

open Flat in
/-- **Flat memory**, optionally with a protected lower half. -/
def flat (protection : Bool) : MemoryInterface Recorder where
  read8 a cycles m := (m.window.get a, record (.read8 a) cycles m)
  write8 a value cycles m :=
    let m := record (.write8 a value) cycles m
    { m with window := storeByte protection m.window a value }
  read16 a cycles m := (m.window.getWord a, record (.read16 a) cycles m)
  write16 a value cycles m :=
    let m := record (.write16 a value) cycles m
    { m with
      window :=
        storeByte protection (storeByte protection m.window a (value.extractLsb' 0 8)) (a + 1)
          (value.extractLsb' 8 8) }
  setInterruptMasterEnable enabled cycles m := record (.interruptMasterEnable enabled) cycles m
  residue _ _ _ := residue

end Dynarec.Bridge
