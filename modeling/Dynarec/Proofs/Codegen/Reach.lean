import Dynarec.Codegen.Compile
import Dynarec.Proofs.Assembly.Reach

/-!
# Generated code is tame

All instructions that are generated can be encoded and all branches among them reach, flags and the
cycle counter are popped from the host stack without a branch since they were pushed, and the code
of an instruction has less than a kilobyte: the code of every operation is tame
(`tame_operationCode`), and so is that of every block.
-/

namespace Dynarec.Codegen

open Assembly (Code Tame)
open Bridge (Layout)
open Guest (Operand8 Operation Placed Reg8 ShiftOp)
open Host (Instruction Register)

variable (layout : Layout)

/-! ### Pieces -/

/-- Reading an 8 bit register takes up to two instructions. -/
theorem tame_load8 (r : Reg8) (dst : Register) : Tame 2 (load8 r dst) := by
  cases r <;> exact ⟨rfl, rfl, of_decide_eq_true rfl⟩

/-- Writing an 8 bit register takes up to three instructions: two rotations around the move, for a
high half. -/
theorem tame_store8 (r : Reg8) (src : Register) : Tame 3 (store8 r src) := by
  cases r <;> exact ⟨rfl, rfl, of_decide_eq_true rfl⟩

/-- A commit takes up to five instructions. -/
theorem tame_commitFlags (rule : FlagRule) : Tame 5 (commitFlags rule) := by
  cases rule <;> exact ⟨rfl, rfl, of_decide_eq_true rfl⟩

/-- Counting cycles takes one instruction, or none. -/
theorem tame_addCycles (n : Nat) : Tame 1 (addCycles n) := by
  rw [addCycles]
  split <;> exact ⟨rfl, rfl, of_decide_eq_true rfl⟩

/-- An access takes up to 250 bytes, with its tests and both of its paths. -/
theorem tame_access (access : Access) (target : GuestAddress) :
    (access.code layout target).Tame 250 := by
  obtain ⟨_ | _, _ | _⟩ := access <;> cases target with
  | dynamic => exact ⟨rfl, rfl, of_decide_eq_true rfl⟩
  | constant a =>
    simp only [Access.code]
    split <;> exact ⟨rfl, rfl, of_decide_eq_true rfl⟩

/-! ### Operands -/

/-- The address of an operand takes up to three instructions. -/
theorem tame_operandAddress (o : Operand8) : Tame 3 (operandAddress o).1 := by
  cases o <;> exact ⟨rfl, rfl, of_decide_eq_true rfl⟩

/-- Moving a pointer after an access takes up to two instructions. -/
theorem tame_afterAccess (o : Operand8) : Tame 2 (afterAccess o) := by
  cases o <;> exact ⟨rfl, rfl, of_decide_eq_true rfl⟩

/-- Reading an operand takes up to 325 bytes, with an access at most. -/
theorem tame_readOperand (o : Operand8) : (readOperand layout o).Tame 325 := by
  have hmemory (o : Operand8) : (Code.straight (operandAddress o).1 ++
      read8 layout (operandAddress o).2 ++ Code.straight (afterAccess o)).Tame 325 :=
    ((tame_operandAddress o).straight.append (tame_access layout _ _)).append
      (tame_afterAccess o).straight
  cases o with
  | register r => exact (tame_load8 r operand).straight.mono (by decide)
  | immediate v => exact ⟨rfl, rfl, of_decide_eq_true rfl⟩
  | _ => exact hmemory _

/-- Writing an operand takes up to 340 bytes, with an access at most. -/
theorem tame_writeOperand (o : Operand8) (src : Register) :
    (writeOperand layout o src).Tame 340 := by
  have hmove : Tame 1 (if src = value then [] else [.mov .dword value (.register src)]) := by
    split <;> exact ⟨rfl, rfl, of_decide_eq_true rfl⟩
  have hmemory (o : Operand8) : (Code.straight ((if src = value then [] else
      [Instruction.mov .dword value (.register src)]) ++ (operandAddress o).1) ++
        write8 layout (operandAddress o).2 ++ Code.straight (afterAccess o)).Tame 340 :=
    ((hmove.append (tame_operandAddress o)).straight.append (tame_access layout _ _)).append
      (tame_afterAccess o).straight
  cases o with
  | register r => exact (tame_store8 r src).straight.mono (by decide)
  | immediate v => exact ⟨rfl, rfl, of_decide_eq_true rfl⟩
  | _ => exact hmemory _

/-- Reading an operand and writing it back takes up to 890 bytes, two accesses among them. -/
theorem tame_modifyOperand (o : Operand8) (rule : Option FlagRule)
    {change : Register → List Instruction} (hchange : ∀ r, Tame 10 (change r)) :
    (modifyOperand layout o rule change).Tame 890 := by
  have hchanged := (tame_readOperand layout o).append (hchange (operandRegister o)).straight
  have hwrite := tame_writeOperand layout o (operandRegister o)
  cases rule with
  | none => exact (hchanged.append hwrite).mono (by decide)
  | some rule =>
    have hcommit := (tame_commitFlags rule).straight
    simp only [modifyOperand]
    split
    · exact (hchanged.append hcommit).append hwrite
    · exact (hchanged.append hwrite).append hcommit

/-! ### Operations -/

/-- What reloads the host flags before a conditional branch: nothing if they are synced. -/
def reload : HostFlags → List Instruction
  | .synced => []
  | .clobbered => syncFlags

/-- Reloading the host flags takes two instructions, or none. -/
theorem tame_reload (before : HostFlags) : Tame 2 (reload before) := by
  cases before <;> exact ⟨rfl, rfl, of_decide_eq_true rfl⟩

/-- Code under a condition is skipped if the condition does not hold, after the host flags have been
reloaded where they have to be. -/
theorem conditionally_some (before : HostFlags) (condition : Guest.Condition) (width : BranchWidth)
    (n : Nat) (body : Code) :
    conditionally before (some condition) width n body = .straight (reload before) ++
      .skip (hostCondition condition).invert width (.straight (addCycles n) ++ body) := by
  cases before <;> rfl

/-- Code under a condition is tame if its branch **reaches** over it. -/
theorem tame_conditionally (before : HostFlags) (condition : Option Guest.Condition)
    {width : BranchWidth} (cycles : Nat) {body : Code} {n : Nat} (hbody : body.Tame n)
    (hreach : 15 + n < Assembly.reach width) :
    (conditionally before condition width cycles body).Tame (51 + n) := by
  cases condition with
  | none => exact hbody.mono (Nat.le_add_left _ _)
  | some condition =>
    have hskipped := (tame_addCycles cycles).straight.append hbody
    rw [conditionally_some]
    exact ((tame_reload before).straight.append (hskipped.skip _ hreach)).mono
      (by rw [Instruction.maxLength]; omega)

/-- Leaving a block takes three instructions. -/
theorem tame_leaveFor (target : Address) (reason : Guest.ExitReason) :
    Tame 3 (leaveFor target reason) := ⟨rfl, rfl, of_decide_eq_true rfl⟩

/-- The code of a call takes up to 400 bytes, with one push. -/
theorem tame_callCode (returnAddress target : Address) :
    (callCode layout returnAddress target).Tame 400 := ⟨rfl, rfl, of_decide_eq_true rfl⟩

/-- The code of a return takes up to 400 bytes, with one pop. -/
theorem tame_returnCode : (returnCode layout).Tame 400 := ⟨rfl, rfl, of_decide_eq_true rfl⟩

/-- Shifting a byte takes up to ten instructions, those that capture the flags among them. -/
theorem tame_shiftRegister (op : ShiftOp) (r : Register) : Tame 10 (shiftRegister op r) := by
  cases op <;> exact ⟨rfl, rfl, of_decide_eq_true rfl⟩

/-- **Operations** have tame code. There is one case for each of them, and the longest ones read an
operand and write it back. -/
theorem tame_operationBody (before : HostFlags) (next : Address) (operation : Operation) :
    (operationBody layout before next operation).Tame 890 := by
  cases operation with
  | load dst src =>
    exact ((tame_readOperand layout src).append (tame_writeOperand layout dst _)).mono (by decide)
  | loadImmediate16 pair v => cases pair <;> exact ⟨rfl, rfl, of_decide_eq_true rfl⟩
  | alu op src =>
    have halu : Tame 8 ((if usesCarry op then loadCarry else []) ++
        [.alu (hostAluOp op) .byte accumulator (.register (operandRegister src))] ++
          updateFlags .zeroAndCarry) := by
      cases op <;> exact ⟨rfl, rfl, of_decide_eq_true rfl⟩
    exact ((tame_readOperand layout src).append halu.straight).mono (by decide)
  | increment o | decrement o | reset index o | set index o =>
    rw [operationBody]
    exact tame_modifyOperand layout o _ fun _ => ⟨rfl, rfl, of_decide_eq_true rfl⟩
  | shift op o =>
    rw [operationBody]
    exact tame_modifyOperand layout o _ (tame_shiftRegister op)
  | bit index o =>
    have htest : Tame 8 (.test .byte (operandRegister o)
        (.immediate ((bitMask index).setWidth 64)) :: updateFlags .zeroKeepCarry) :=
      ⟨rfl, rfl, of_decide_eq_true rfl⟩
    exact ((tame_readOperand layout o).append htest.straight).mono (by decide)
  | increment16 pair | decrement16 pair | addHl pair | push pair | pop pair =>
    cases pair <;> exact ⟨rfl, rfl, of_decide_eq_true rfl⟩
  | rotateAccumulator op => cases op <;> exact ⟨rfl, rfl, of_decide_eq_true rfl⟩
  | loadHlFromStackOffset offset =>
    simp only [operationBody, loadHlFromStackOffset]
    split <;> exact ⟨rfl, rfl, of_decide_eq_true rfl⟩
  | addStackPointer offset =>
    simp only [operationBody, addStackPointer]
    split <;> exact ⟨rfl, rfl, of_decide_eq_true rfl⟩
  | jump condition target =>
    exact (tame_conditionally before condition _ (tame_leaveFor target .branch).straight
      (by decide)).mono (by decide)
  | jumpRelative condition offset =>
    exact (tame_conditionally before condition _ (tame_leaveFor _ .branch).straight
      (by decide)).mono (by decide)
  | call condition target =>
    exact (tame_conditionally before condition _ (tame_callCode layout next target)
      (by decide)).mono (by decide)
  | ret condition =>
    exact (tame_conditionally before condition _ (tame_returnCode layout) (by decide)).mono
      (by decide)
  | storeStackPointer target =>
    have hload : Tame 1 [loadStackPointer value] := ⟨rfl, rfl, of_decide_eq_true rfl⟩
    exact (hload.straight.append (tame_access layout ⟨true, true⟩ (.constant target))).mono
      (by decide)
  | _ => exact ⟨rfl, rfl, of_decide_eq_true rfl⟩

/-- **Instructions** have tame code: that of their operation, behind the one that counts their
cycles. -/
theorem tame_operationCode (before : HostFlags) (p : Placed) :
    (operationCode layout before p).Tame 905 :=
  (tame_addCycles _).straight.append (tame_operationBody layout before _ _)

/-- The code of an instruction can be laid out. -/
theorem fits_operationCode (before : HostFlags) (p : Placed) :
    (operationCode layout before p).Fits :=
  (tame_operationCode layout before p).layout.1

end Dynarec.Codegen
