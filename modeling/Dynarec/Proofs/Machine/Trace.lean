import Dynarec.Codegen.Access
import Dynarec.Machine.Run
import Dynarec.Proofs.Host.RoundTrip

/-!
# Traces of generated code

A run of a program as the list of its **visits**: which instruction is executed at which offset and
in which state (`traceFrom`). What a visit does to guest memory is a list of **events**: a direct
access to the window, or a call of a handler with the clock count it is told.

The immediate operand of an instruction is known only up to the bytes that encode it. Where those
determine what the host computes with (`Instruction.FitsImmediate`), an instruction and the one read
back from its bytes have the same effect (`execute_canonical`).
-/

namespace Dynarec

open Bridge (MemoryInterface Request)
open Host (Instruction Program Size Memory)

namespace Machine

variable {σ : Type}

/-! ### Events -/

/-- What generated code does to guest memory. -/
inductive Event
  /-- An access to the window without a handler. `stack` tells whether it goes through the register
  of the guest stack pointer. -/
  | direct (access : Codegen.Access) (stack : Bool) (address : Address)
  /-- A call of a handler, which is told a clock count. -/
  | call (request : Request) (cycles : HostWord)
  deriving DecidableEq

/-- The event of an access to memory, if it is one to the window. -/
def directEvents (env : Environment) (s : State σ) (write : Bool) (size : Size) (m : Memory) :
    List Event :=
  match size, locate env.layout (size.bits / 8) (effectiveAddress s.registers m) with
  | .byte, some (.window a) => [.direct ⟨false, write⟩ (m.base = Codegen.stackPointer) a]
  | .word, some (.window a) => [.direct ⟨true, write⟩ (m.base = Codegen.stackPointer) a]
  | _, _ => []

/-- The **events** of an instruction in a state. -/
def eventsOf (env : Environment) (s : State σ) : Instruction → List Event
  | .load size _ m => directEvents env s false size m
  | .store size m _ => directEvents env s true size m
  | .movzx false _ (.memory m) => directEvents env s false .byte m
  | .movzx true _ (.memory m) => directEvents env s false .word m
  | .call (some (.memory m)) =>
    match handlerAt env (effectiveAddress s.registers m) with
    | some handler =>
      [.call (requestOf handler s.registers) (s.registers.get handler.cyclesArgument)]
    | none => []
  | _ => []

/-! ### Canonical instructions -/

/-- An immediate operand has the value it is read back with: of a constant only the bits of the
operand matter, unless they are to be extended by their sign. -/
theorem sourceValue_canonical (s : State σ) (size : Size) (v : HostWord)
    (h : size = .qword → Host.fitsSigned 32 v = true) :
    sourceValue s size (.immediate (Host.signedLow (8 * size.immediateBytes) v)) =
      sourceValue s size (.immediate v) := by
  cases size with
  | byte => exact Host.setWidth_signedLow (by decide) (by decide) v
  | word => exact Host.setWidth_signedLow (by decide) (by decide) v
  | dword => exact Host.setWidth_signedLow (by decide) (by decide) v
  | qword =>
    exact congrArg (BitVec.setWidth 64)
      (Instruction.signedLow_eq_of_fitsSigned (h rfl) (by decide) (by decide))

/-- An instruction and the one read back from its bytes have the same effect, so that it does not
matter which of the two a run is about. -/
theorem execute_canonical {i : Instruction} (hi : i.FitsImmediate) (env : Environment)
    (m : MemoryInterface σ) (s : State σ) : execute env m s i.canonical = execute env m s i := by
  cases i with
  | mov size dst src =>
    cases src with
    | register r => rfl
    | immediate v =>
      have h : sourceValue s size (.immediate (Host.signedLow size.bits v)) =
          sourceValue s size (.immediate v) :=
        Host.setWidth_signedLow (by cases size <;> decide) (Nat.le_refl _) v
      simp only [Instruction.canonical, execute, h]
  | alu op size dst src =>
    cases src with
    | register r => rfl
    | immediate v =>
      have h := sourceValue_canonical s size v fun hsize => by subst hsize; exact hi
      simp only [Instruction.canonical, execute, h]
  | test size dst src =>
    cases src with
    | register r => rfl
    | immediate v =>
      have h := sourceValue_canonical s size v fun hsize => by subst hsize; exact hi
      simp only [Instruction.canonical, execute, h]
  | _ => rfl

/-- An instruction and the one read back from its bytes do the same to guest memory. -/
theorem eventsOf_canonical (env : Environment) (s : State σ) (i : Instruction) :
    eventsOf env s i.canonical = eventsOf env s i := by
  cases i with
  | mov size dst src => cases src <;> rfl
  | alu op size dst src => cases src <;> rfl
  | test size dst src => cases src <;> rfl
  | _ => rfl

/-! ### Visits -/

/-- An instruction about to be executed: where it stands and in which state. -/
structure Visit (σ : Type) where
  offset : Nat
  instruction : Instruction
  state : State σ

/-- The events of visits one after another. -/
def events (env : Environment) (visits : List (Visit σ)) : List Event :=
  visits.flatMap fun v => eventsOf env v.state v.instruction

@[simp]
theorem events_nil (env : Environment) : events env ([] : List (Visit σ)) = [] := rfl

/-- The events of the first visit come first. -/
@[simp]
theorem events_cons (env : Environment) (v : Visit σ) (vs : List (Visit σ)) :
    events env (v :: vs) = eventsOf env v.state v.instruction ++ events env vs := rfl

/-- The events of visits one after another are those of the first ones and then those of the
others. -/
@[simp]
theorem events_append (env : Environment) (vs ws : List (Visit σ)) :
    events env (vs ++ ws) = events env vs ++ events env ws := List.flatMap_append

/-- What a visit does is done by the visits together. -/
theorem mem_events {env : Environment} {visits : List (Visit σ)} {v : Visit σ} {e : Event}
    (hv : v ∈ visits) (he : e ∈ eventsOf env v.state v.instruction) : e ∈ events env visits :=
  List.mem_flatMap.mpr ⟨v, hv, he⟩

/-- A run of a program from an offset on, together with its visits. -/
def traceFrom (env : Environment) (i : MemoryInterface σ) (p : Program) :
    (fuel : Nat) → (offset : Nat) → State σ → List (Visit σ) × Except Trap (State σ)
  | 0, _, _ => ([], .error .endless)
  | fuel + 1, offset, s =>
    match p.fetch offset with
    | none => ([], .error (.badInstruction offset))
    | some (instruction, length) =>
      let visit : Visit σ := ⟨offset, instruction, s⟩
      match execute env i s instruction with
      | .error trap => ([visit], .error trap)
      | .ok (.next, s) =>
        let rest := traceFrom env i p fuel (offset + length) s
        (visit :: rest.1, rest.2)
      | .ok (.ret, s) => ([visit], .ok s)
      | .ok (.jump displacement, s) =>
        let target : Int := (offset + length : Nat) + displacement.toInt
        if target < 0 then ([visit], .error (.badInstruction target))
        else
          let rest := traceFrom env i p fuel target.toNat s
          (visit :: rest.1, rest.2)

/-- **The trace** of a whole run. -/
def trace (env : Environment) (i : MemoryInterface σ) (p : Program) (s : State σ) :
    List (Visit σ) × Except Trap (State σ) :=
  traceFrom env i p p.code.length 0 s

/-- A trace ends as the run does: it is the run with its visits noted down. -/
theorem traceFrom_snd (env : Environment) (i : MemoryInterface σ) (p : Program) (fuel offset : Nat)
    (s : State σ) : (traceFrom env i p fuel offset s).2 = runFrom env i p fuel offset s := by
  induction fuel generalizing offset s with
  | zero => rfl
  | succ fuel ih =>
    rw [traceFrom, runFrom]
    rcases p.fetch offset with _ | ⟨instruction, length⟩
    · rfl
    simp only
    rcases execute env i s instruction with trap | ⟨_ | displacement | _, t⟩
    · rfl
    · exact ih _ _
    · simp only
      split
      · rfl
      · exact ih _ _
    · rfl

/-- The trace of a whole run ends as the run does. -/
theorem trace_snd (env : Environment) (i : MemoryInterface σ) (p : Program) (s : State σ) :
    (trace env i p s).2 = run env i p s := traceFrom_snd env i p _ _ s

end Machine

end Dynarec
