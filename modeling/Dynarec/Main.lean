import Dynarec.Demo
import Dynarec.Vm.Log

/-!
# Command line

Runs a guest program until it stops, and prints what happens. The program is given as the arguments,
in hexadecimal, two digits a byte; without arguments the demonstration program runs.
-/

namespace Dynarec.CommandLine

/-- The value of a hexadecimal digit. -/
def digitValue (c : Char) : Nat :=
  if c.isDigit then c.toNat - '0'.toNat else c.toLower.toNat - 'a'.toNat + 10

/-- The bytes given by pairs of hexadecimal digits. -/
def bytesOfDigits : List Char → List Byte
  | a :: b :: rest => BitVec.ofNat 8 (16 * digitValue a + digitValue b) :: bytesOfDigits rest
  | _ => []

/-- Runs block after block until the guest stops. -/
partial def runGuest (setup : Setup Demo.Messages) (vm : VirtualMachine Demo.Messages) :
    IO Unit := do
  for r in vm.runRecords setup do
    if r.level ≠ .trace then IO.println (r.level.text ++ ": " ++ r.text)
  let (outcome, after) := vm.run setup
  for message in after.memory.device.extract vm.memory.device.size do
    IO.println message
  match outcome with
  | .ok .branch => runGuest setup after
  | .ok .halt =>
    IO.println ("HALT at " ++ hexText after.cpu.pc.toNat)
    runGuest setup after
  | .ok .stop => IO.println ("Stopped at " ++ hexText after.cpu.pc.toNat)
  | .error e => IO.println ("Execution failed at " ++ hexText after.cpu.pc.toNat ++ ": " ++ e.text)

/-- Runs the program given by the arguments. -/
def runProgram (args : List String) : IO Unit :=
  let given := bytesOfDigits (String.join args).toList
  let program := if args.isEmpty then Demo.program else given.take 0x8000
  runGuest ⟨Demo.hostEnvironment, Demo.interface, {}⟩
    (.ofMemory ⟨Guest.Window.zeros.store 0 program, #[]⟩)

end Dynarec.CommandLine

/-- Entry point. -/
def main (args : List String) : IO Unit := Dynarec.CommandLine.runProgram args
