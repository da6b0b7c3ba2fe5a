import Dynarec.Codegen.Compile
import Dynarec.Proofs.Guest.Listing

/-!
# Operands that have no code

Two requests to the code generator make no sense: the guest address of an operand that is not in
memory, and a write to a constant. The **checked** generator fails when it comes to one of them. For
operations out of the opcode tables it never does, and its code is the code of the operation
(`operationBody?_eq`, `instructionsCode?_eq`).
-/

namespace Dynarec.Codegen

open Assembly (Code)
open Bridge (Layout)
open Guest (Operand8 Operation Placed)
open Host (Instruction Register)

variable (layout : Layout)

/-! ### Operands -/

/-- Where the guest address of an operand comes from, if it is in memory. -/
def operandAddress? : Operand8 → Option (List Instruction × GuestAddress)
  | .register _ | .immediate _ => none
  | o => some (operandAddress o)

/-- Reads an operand. -/
def readOperand? : Operand8 → Option Code
  | .register g => some (.straight (load8 g operand))
  | .immediate v => some (Code.instruction (.mov .dword operand (.immediate (v.setWidth 64))))
  | o => do
    let (instructions, target) ← operandAddress? o
    return .straight instructions ++ read8 layout target ++ .straight (afterAccess o)

/-- Writes the low byte of `src` to an operand, if it is a place. -/
def writeOperand? (o : Operand8) (src : Register) : Option Code :=
  match o with
  | .register g => some (.straight (store8 g src))
  | .immediate _ => none
  | o => do
    let (instructions, target) ← operandAddress? o
    return .straight ((if src = value then [] else [.mov .dword value (.register src)]) ++
      instructions) ++ write8 layout target ++ .straight (afterAccess o)

/-- Reads an operand, changes it in its register and writes it back. -/
def modifyOperand? (o : Operand8) (rule : Option FlagRule) (change : Register → List Instruction) :
    Option Code := do
  let r := operandRegister o
  let changed := (← readOperand? layout o) ++ .straight (change r)
  match rule with
  | none => return changed ++ (← writeOperand? layout o r)
  | some rule =>
    let written ← writeOperand? layout o r
    if o.isMemory then return changed ++ .straight (commitFlags rule) ++ written
    else return changed ++ written ++ .straight (commitFlags rule)

/-- Every operand can be **read**, so that the check never fails. -/
theorem readOperand?_eq (o : Operand8) : readOperand? layout o = some (readOperand layout o) := by
  cases o <;> rfl

/-- A place can be **written**: only a constant cannot. -/
theorem writeOperand?_eq {o : Operand8} (h : o.IsPlace) (src : Register) :
    writeOperand? layout o src = some (writeOperand layout o src) := by
  cases o with
  | immediate v => exact absurd rfl (h v)
  | _ => rfl

theorem modifyOperand?_eq {o : Operand8} (h : o.IsPlace) (rule : Option FlagRule)
    (change : Register → List Instruction) :
    modifyOperand? layout o rule change = some (modifyOperand layout o rule change) := by
  rw [modifyOperand?, readOperand?_eq, writeOperand?_eq layout h]
  cases rule with
  | none => rfl
  | some rule => cases hmemory : o.isMemory <;> simp [modifyOperand, hmemory]

/-! ### Operations -/

/-- The host code that performs an operation. -/
def operationBody? (before : HostFlags) (next : Address) : Operation → Option Code
  | .load dst src =>
    return (← readOperand? layout src) ++ (← writeOperand? layout dst (operandRegister src))
  | .alu op src =>
    return (← readOperand? layout src) ++
      .straight ((if usesCarry op then loadCarry else []) ++
        [.alu (hostAluOp op) .byte accumulator (.register (operandRegister src))] ++
        updateFlags .zeroAndCarry)
  | .increment target =>
    modifyOperand? layout target (some .zeroKeepCarry) fun r =>
      .alu .add .byte r (.immediate 1) :: captureFlags
  | .decrement target =>
    modifyOperand? layout target (some .zeroKeepCarry) fun r =>
      .alu .add .byte r (.immediate (-1)) :: captureFlags
  | .shift op target => modifyOperand? layout target (some .zeroAndCarry) (shiftRegister op)
  | .bit index target =>
    return (← readOperand? layout target) ++
      .straight (.test .byte (operandRegister target) (.immediate ((bitMask index).setWidth 64)) ::
        updateFlags .zeroKeepCarry)
  | .reset index target =>
    modifyOperand? layout target none fun r =>
      [.alu .and .byte r (.immediate ((~~~bitMask index).setWidth 64))]
  | .set index target =>
    modifyOperand? layout target none fun r =>
      [.alu .or .byte r (.immediate ((bitMask index).setWidth 64))]
  | operation => some (operationBody layout before next operation)

/-- The host code of instructions one after another. -/
def instructionsCode? (before : HostFlags) : List Placed → Option Code
  | [] => some .empty
  | p :: ps => do
    let first := .straight (addCycles p.instruction.cycles.base) ++
      (← operationBody? layout before p.next p.instruction.operation)
    return first ++ (← instructionsCode? (before.after p.instruction.operation) ps)

/-- **Operations that write places** have code, and it is the code of `operationBody`. There is one
case for each operation. -/
theorem operationBody?_eq {operation : Operation} (h : operation.WritesPlaces) (before : HostFlags)
    (next : Address) :
    operationBody? layout before next operation =
      some (operationBody layout before next operation) := by
  cases operation with
  | load dst src =>
    rw [operationBody?, readOperand?_eq, writeOperand?_eq layout h]
    rfl
  | alu op src | bit index src =>
    rw [operationBody?, readOperand?_eq]
    rfl
  | increment o | decrement o | shift op o | reset index o | set index o =>
    rw [operationBody?, modifyOperand?_eq layout h]
    rfl
  | _ => rfl

/-- **Instructions out of the opcode tables** have code, since no opcode writes to a constant. -/
theorem instructionsCode?_eq {ps : List Placed}
    (h : ∀ p ∈ ps, p.instruction.operation.IsDecoded) (before : HostFlags) :
    instructionsCode? layout before ps = some (instructionsCode layout before ps) := by
  induction ps generalizing before with
  | nil => rfl
  | cons p ps ih =>
    rw [instructionsCode?, operationBody?_eq layout (h p List.mem_cons_self).writesPlaces,
      ih fun q hq => h q (List.mem_cons_of_mem p hq)]
    rfl

end Dynarec.Codegen
