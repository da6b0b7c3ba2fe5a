import Dynarec.Proofs.Machine.Depth
import Dynarec.Proofs.Machine.Effects

/-!
# Instructions that do not read flags

Moves, loads, stores, calls of handlers and the host stack, flags apart, do not look at the host
flags. Code made of them (`isFlagFree`) does the same whatever the flags are when it is entered;
only the flags may be different when it is left (`Runs.setFlags`).
-/

namespace Dynarec.Machine

open Bridge (MemoryInterface)
open Host (Flags Instruction Size)

variable {σ : Type} {env : Environment} {i : MemoryInterface σ} {s t : State σ}

/-- Whether an instruction moves data and **does not read the flags**. -/
def isFlagFree : Instruction → Bool
  | .push _ | .pop _ | .mov _ _ _ | .load _ _ _ | .store _ _ _ | .lea _ _ _ | .movzx _ _ _
  | .call _ => true
  | _ => false

/-- Two states that differ in the flags only: the one is the other with its own flags put in. -/
theorem Changes.eq_setFlags (h : Changes [] s t) : t = s.setFlags t.flags := by
  have hregisters : t.registers = s.registers :=
    Host.Registers.ext fun r => h.registers r List.not_mem_nil
  obtain ⟨_, _, _, _, _⟩ := t
  obtain rfl := hregisters
  obtain rfl := h.stack
  obtain rfl := h.contextCycles
  obtain rfl := h.memory
  rfl

/-- What an instruction does to guest memory **does not depend on the flags**: an address is made
from registers, and so is a value that is written. -/
theorem eventsOf_setFlags (s : State σ) (f : Flags) (instruction : Instruction) :
    eventsOf env (s.setFlags f) instruction = eventsOf env s instruction := by
  cases instruction with
  | movzx wide dst src => cases wide <;> cases src <;> rfl
  | call target => cases target with
    | none => rfl
    | some place => cases place <;> rfl
  | _ => rfl

/-! ### Parts of instructions -/

variable (f : Flags)

/-- A push commutes with a change of the flags. -/
theorem push_setFlags (v : HostWord) :
    (s.setFlags f).push env v = (s.push env v).map (·.setFlags f) := by
  have hbalanced : (s.setFlags f).isBalanced env = s.isBalanced env := rfl
  rw [State.push, State.push, hbalanced]
  split <;> rfl

/-- A pop commutes with a change of the flags. -/
theorem pop_setFlags :
    (s.setFlags f).pop env = (s.pop env).map fun r => (r.1, r.2.setFlags f) := by
  have hbalanced : (s.setFlags f).isBalanced env = s.isBalanced env := rfl
  have hstack : (s.setFlags f).stack = s.stack := rfl
  rw [State.pop, State.pop, hbalanced, hstack]
  cases s.isBalanced env <;> cases s.stack <;> rfl

/-- What is read from memory does not depend on the flags. -/
theorem readMemory_setFlags (size : Size) (a : HostWord) :
    readMemory env (s.setFlags f) size a = readMemory env s size a := rfl

/-- A write to memory commutes with a change of the flags. -/
theorem writeMemory_setFlags (size : Size) (a : HostWord) (v : BitVec size.bits) :
    writeMemory env (s.setFlags f) size a v = (writeMemory env s size a v).map (·.setFlags f) := by
  unfold writeMemory
  cases size <;> rcases locate env.layout _ a with _ | _ | o <;> try rfl
  dsimp only
  split <;> rfl

/-! ### Instructions -/

/-- **An instruction** that does not read the flags does the same whatever they are, up to the flags
it leaves behind. -/
theorem execute_setFlags {instruction : Instruction} (hfree : isFlagFree instruction = true)
    (h : execute env i s instruction = .ok (.next, t)) :
    ∃ f', execute env i (s.setFlags f) instruction = .ok (.next, t.setFlags f') := by
  cases instruction with
  | mov size dst src =>
    cases h
    cases src <;> exact ⟨f, rfl⟩
  | lea size dst src =>
    cases h
    exact ⟨f, rfl⟩
  | push src =>
    obtain ⟨u, hu, heq⟩ := map_eq_ok h
    cases heq
    exact ⟨f, congrArg (Except.map _) ((push_setFlags f _).trans (congrArg _ hu))⟩
  | pop dst =>
    obtain ⟨⟨v, u⟩, hu, heq⟩ := map_eq_ok h
    cases heq
    exact ⟨f, congrArg (Except.map _) ((pop_setFlags f).trans (congrArg _ hu))⟩
  | load size dst src =>
    obtain ⟨v, hv, heq⟩ := map_eq_ok h
    cases heq
    exact ⟨f, congrArg (Except.map _) ((readMemory_setFlags f _ _).trans hv)⟩
  | store size dst src =>
    obtain ⟨u, hu, heq⟩ := map_eq_ok h
    cases heq
    exact ⟨f, congrArg (Except.map _) ((writeMemory_setFlags f _ _ _).trans (congrArg _ hu))⟩
  | movzx wide dst src =>
    cases src with
    | register r => cases wide <;> cases h <;> exact ⟨f, rfl⟩
    | memory m =>
      cases wide with
      | false =>
        obtain ⟨v, hv, heq⟩ := map_eq_ok h
        cases heq
        exact ⟨f, congrArg (Except.map _) ((readMemory_setFlags f .byte _).trans hv)⟩
      | true =>
        obtain ⟨v, hv, heq⟩ := map_eq_ok h
        cases heq
        exact ⟨f, congrArg (Except.map _) ((readMemory_setFlags f .word _).trans hv)⟩
  | call target =>
    -- a handler leaves flags of its own
    have hsame : execute env i (s.setFlags f) (.call target) = execute env i s (.call target) := by
      rcases target with _ | _ | _ <;> rfl
    exact ⟨t.flags, hsame.trans h⟩
  | _ => cases hfree

/-- **Code** that does not read the flags does the same whatever they are, with the same events: the
induction is on the instructions, and each of them is `execute_setFlags`. -/
theorem Runs.setFlags {is : List Instruction} (hfree : is.all isFlagFree = true)
    {es : List Event} (h : Runs env i is s es t) :
    ∃ f', Runs env i is (s.setFlags f) es (t.setFlags f') := by
  induction h generalizing f with
  | nil s => exact ⟨f, .nil _⟩
  | @cons instruction is s t u es hexecute _ ih =>
    rw [List.all_cons, Bool.and_eq_true] at hfree
    obtain ⟨f', hexecute'⟩ := execute_setFlags f hfree.1 hexecute
    obtain ⟨f'', hrest⟩ := ih f' hfree.2
    rw [← eventsOf_setFlags s f]
    exact ⟨f'', .cons hexecute' hrest⟩

end Dynarec.Machine
