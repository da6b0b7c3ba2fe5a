import Dynarec.Proofs.Interpreter.Demands

/-!
# Instructions one after another

`steps` carries out instructions until one leads out of the block. Unlike `runBlock` it does not say
where control goes on after the last one, so that it can be split in two: `steps_append`, and
`blockDemands_append` for what is asked of memory.
-/

namespace Dynarec.Interpreter

open Bridge (MemoryInterface)
open Guest (ExitReason Operation Placed)

variable {σ : Type} (i : MemoryInterface σ)

/-- The effect of **instructions one after another**, up to the first one that leads out of the
block. -/
def steps : List Placed → State σ → State σ × Exit
  | [], s => (s, none)
  | p :: ps, s =>
    match step i p s with
    | (s, some exit) => (s, some exit)
    | (s, none) => steps ps s

variable {i}

section First

variable {p : Placed} {ps : List Placed} {s t : State σ} {exit : ExitReason × Address}

/-- The first instruction leads out of the block, and the others are not executed. -/
theorem steps_left (h : step i p s = (t, some exit)) : steps i (p :: ps) s = (t, some exit) := by
  rw [steps, h]

/-- The first instruction stays in the block, and the others follow. -/
theorem steps_through (h : step i p s = (t, none)) : steps i (p :: ps) s = steps i ps t := by
  rw [steps, h]

/-- A block whose first instruction leads out of it is left there. -/
theorem runBlock_left (h : step i p s = (t, some exit)) (fallThrough : Address) :
    runBlock i fallThrough (p :: ps) s = (t, exit) := by
  rw [runBlock, h]

/-- A block whose first instruction stays in it is the block of the others. -/
theorem runBlock_through (h : step i p s = (t, none)) (fallThrough : Address) :
    runBlock i fallThrough (p :: ps) s = runBlock i fallThrough ps t := by
  rw [runBlock, h]

/-- A block that is left by its first instruction demands what this one does. -/
theorem blockDemands_left (h : step i p s = (t, some exit)) :
    blockDemands i (p :: ps) s = stepDemands i p s := by
  rw [blockDemands, h]
  exact List.append_nil _

/-- A block demands what its first instruction does and then what the others do. -/
theorem blockDemands_through (h : step i p s = (t, none)) :
    blockDemands i (p :: ps) s = stepDemands i p s ++ blockDemands i ps t := by
  rw [blockDemands, h]

end First

theorem blockDemands_one (p : Placed) (s : State σ) :
    blockDemands i [p] s = stepDemands i p s := by
  rcases hstep : step i p s with ⟨t, _ | exit⟩
  · rw [blockDemands_through hstep]
    exact List.append_nil _
  · rw [blockDemands_left hstep]

/-! ### Splitting -/

/-- Instructions one after another: the later ones follow if the earlier ones stay in the block. -/
theorem steps_append (ps qs : List Placed) (s : State σ) :
    steps i (ps ++ qs) s =
      match steps i ps s with
      | (t, some exit) => (t, some exit)
      | (t, none) => steps i qs t := by
  induction ps generalizing s with
  | nil => rfl
  | cons p ps ih =>
    rw [List.cons_append]
    rcases hstep : step i p s with ⟨t, _ | exit⟩
    · rw [steps_through hstep, steps_through hstep, ih]
    · rw [steps_left hstep, steps_left hstep]

/-- **Running a block**: the exit of its instructions, or a branch to the address after it if
control falls through all of them. -/
theorem runBlock_eq_steps (fallThrough : Address) (ps : List Placed) (s : State σ) :
    runBlock i fallThrough ps s =
      ((steps i ps s).1, (steps i ps s).2.getD (.branch, fallThrough)) := by
  induction ps generalizing s with
  | nil => rfl
  | cons p ps ih =>
    rcases hstep : step i p s with ⟨t, _ | exit⟩
    · rw [runBlock, hstep, steps_through hstep]
      exact ih t
    · rw [runBlock, hstep, steps_left hstep]
      rfl

/-! ### Counting -/

variable (i) in
/-- How many instructions are **executed**: all up to the first one that leads out of the block. -/
def executed : List Placed → State σ → Nat
  | [], _ => 0
  | p :: ps, s =>
    match step i p s with
    | (_, some _) => 1
    | (s, none) => executed ps s + 1

/-- An instruction that leads out of the block is the only one of those to come that is executed. -/
theorem executed_left {p : Placed} {ps : List Placed} {s t : State σ} {exit : ExitReason × Address}
    (h : step i p s = (t, some exit)) : executed i (p :: ps) s = 1 := by
  rw [executed, h]

/-- An instruction that stays in the block is counted, and so are those after it. -/
theorem executed_through {p : Placed} {ps : List Placed} {s t : State σ}
    (h : step i p s = (t, none)) : executed i (p :: ps) s = executed i ps t + 1 := by
  rw [executed, h]

theorem executed_one (p : Placed) (s : State σ) : executed i [p] s = 1 := by
  rcases hstep : step i p s with ⟨t, _ | exit⟩
  · rw [executed_through hstep]
    rfl
  · rw [executed_left hstep]

/-! ### Instructions that end the block -/

/-- Control **never falls through** an instruction that ends the block: it has an exit in every
state. -/
theorem perform_of_endsBlock {operation : Operation} (h : operation.endsBlock = true)
    (next : Address)
    (s : State σ) : (perform i next operation s).2.isSome = true := by
  cases operation with
  | jump condition | jumpRelative condition | call condition | ret condition =>
    cases condition <;> first | rfl | cases h
  | stop | halt | jumpHl | retInterrupt | restart => rfl
  | _ => cases h

/-- Control never falls through instructions the last of which ends the block. An earlier one may
leave it before. -/
theorem steps_of_endsBlock (ps : List Placed) {p : Placed}
    (h : p.instruction.operation.endsBlock = true) (s : State σ) :
    (steps i (ps ++ [p]) s).2.isSome = true := by
  have hlast (t : State σ) : (steps i [p] t).2.isSome = true := by
    have hexit := perform_of_endsBlock (i := i) h p.next (t.addCycles p.instruction.cycles.base)
    rcases hstep : step i p t with ⟨u, _ | exit⟩
    · rw [← step, hstep] at hexit
      cases hexit
    · rw [steps_left hstep]
      rfl
  rw [steps_append]
  rcases steps i ps s with ⟨t, _ | exit⟩
  · exact hlast t
  · rfl

end Dynarec.Interpreter
