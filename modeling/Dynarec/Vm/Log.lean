import Dynarec.Log
import Dynarec.Vm.Basic

/-!
# Log records of a virtual machine

What a machine reports: the compilations that its runs cause, and dropped blocks. The records of an
operation are a view of the machine before it.
-/

namespace Dynarec

open Codegen (CompileError)

/-- The text of a machine error. -/
def VmError.text : VmError → String
  | compile e => "TranslationError(" ++ e.text ++ ")"
  | invalidExit code => "InvalidExitReason(" ++ toString code.toNat ++ ")"
  | trap _ => "HostTrap"

namespace VirtualMachine

variable {σ : Type}

/-- The records of a compilation by a machine: those of the compiler, and a warning if it fails. -/
def compileRecords (setup : Setup σ) (vm : VirtualMachine σ) (start : Address) : List Record :=
  let outcome := vm.compile setup start
  Dynarec.compileRecords setup.config vm.memory.window.image start outcome ++
    match outcome with
    | .ok _ => []
    | .error e => [failedRecord start e]

/-- The records of a run. -/
def runRecords (setup : Setup σ) (vm : VirtualMachine σ) : List Record :=
  if vm.isCached vm.cpu.nextAddress then [] else vm.compileRecords setup vm.cpu.nextAddress

/-- The records of an invalidation. -/
def invalidateRecords (vm : VirtualMachine σ) (r : Guest.Range) : List Record :=
  if 0 < vm.cache.countOverlapping r then [invalidatedRecord (vm.cache.countOverlapping r) r]
  else []

end VirtualMachine

end Dynarec
