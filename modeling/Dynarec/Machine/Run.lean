import Dynarec.Host.Program
import Dynarec.Machine.Execute

/-!
# Runs of generated code

A run starts at the first byte of a program and ends with a return. It takes one instruction after
another and is given up after as many instructions as the program has bytes; generated code branches
forward only and so never needs more.
-/

namespace Dynarec.Machine

open Bridge (MemoryInterface)
open Host (Program)

variable {σ : Type}

/-- Runs a program from an offset on, for at most `fuel` instructions. -/
def runFrom (env : Environment) (i : MemoryInterface σ) (p : Program) :
    (fuel : Nat) → (offset : Nat) → State σ → Except Trap (State σ)
  | 0, _, _ => .error .endless
  | fuel + 1, offset, s =>
    match p.fetch offset with
    | none => .error (.badInstruction offset)
    | some (instruction, length) =>
      match execute env i s instruction with
      | .error trap => .error trap
      | .ok (.next, s) => runFrom env i p fuel (offset + length) s
      | .ok (.ret, s) => .ok s
      | .ok (.jump displacement, s) =>
        let target : Int := (offset + length : Nat) + displacement.toInt
        if target < 0 then .error (.badInstruction target)
        else runFrom env i p fuel target.toNat s

/-- **Runs a program** until it returns. -/
def run (env : Environment) (i : MemoryInterface σ) (p : Program) (s : State σ) :
    Except Trap (State σ) :=
  runFrom env i p p.code.length 0 s

end Dynarec.Machine
