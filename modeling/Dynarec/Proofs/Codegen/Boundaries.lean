import Dynarec.Proofs.Codegen.Branches
import Dynarec.Proofs.Codegen.Calls

/-!
# Boundaries of guest instructions

The code of a guest instruction starts where that of the instructions before it ends. Whenever a run
of the block gets there, the interpreter gets to the instruction, and the machine state stands for
the interpreter's (`mirrors_of_boundary`); and the run gets there whenever the interpreter does.
-/

namespace Dynarec.Codegen

open Assembly (Code)
open Bridge (Layout MemoryInterface)
open Guest (Ending Image Placed)
open Interpreter (steps)
open Machine (Environment State Visit)

variable {σ : Type} {env : Environment} {i : MemoryInterface σ} {g : Interpreter.State σ}
  {s t : State σ} {track : Tracking} {before : HostFlags} {offset : Nat} {v : Visit σ}

/-- A visit at the start of an instruction's code is in the state in which that is entered. -/
theorem state_of_visit_operationCode {p : Placed}
    (hv : v ∈ ((operationCode env.layout before p).path env i offset s).visits)
    (ho : v.offset = offset) : v.state = s := by
  have hcycles := length_addCycles (cycles_ne_zero p)
  obtain ⟨haddCycles, hbody⟩ := fits_operationCode env.layout before p
  rw [operationCode] at hv
  exact Machine.state_of_mem_visits_straight haddCycles
    (Machine.mem_visits_left hbody hv (by rw [Code.bytes]; omega)) ho

/-- A visit at the start of the code of instructions, and of the exit after them, is in the state in
which that is entered. -/
theorem state_of_visit_trackedCode (track : Tracking) (before : HostFlags) {qs : List Placed}
    (ending : Ending)
    (hv : v ∈ ((trackedCode env.layout track before qs ++ fallThroughCode ending).path env i offset
      t).visits) (ho : v.offset = offset) : v.state = t := by
  have hexit := (tame_fallThroughCode ending).layout.1
  cases qs with
  | nil =>
    replace hv : v ∈ ((fallThroughCode ending).path env i offset t).visits := hv
    rw [fallThroughCode] at hv hexit
    split at hv
    · next hfalls =>
      rw [if_pos hfalls] at hexit
      exact Machine.state_of_mem_visits_straight hexit hv ho
    · cases hv
  | cons q qs =>
    have hpos := length_operationCode env.layout before q
    have hrest := fits_trackedCode env.layout track
      (track before q.instruction.operation) qs
    rw [trackedCode] at hv
    have hcode := Machine.mem_visits_left hexit hv (by
      rw [Code.bytes_append, List.length_append]
      omega)
    exact state_of_visit_operationCode (Machine.mem_visits_left hrest hcode (by omega)) ho

section Listing

variable (hsound : env.Sound) (htrack : track.Cautious) (h : Mirrors env g s) {ps qs : List Placed}
  (hwell : ∀ p ∈ ps, p.instruction.operation.WellFormed)

include hsound htrack h hwell

/-- **A visit at a boundary** is in a state that stands for the interpreter's. -/
theorem mirrors_of_boundary {ending : Ending}
    (hv : v ∈ ((trackedBlock env.layout track (ps ++ qs) ending).path env i 0 s).visits)
    (ho : v.offset = (trackedCode env.layout track .clobbered ps).bytes.length) :
    ∃ g', steps i ps g = (g', none) ∧ Mirrors env g' v.state := by
  have hps := fits_trackedCode env.layout track .clobbered ps
  rw [trackedBlock, Code.path_append, path_trackedCode_append,
    bytes_trackedCode_append] at hv
  have hsplit : v ∈ ((trackedCode env.layout track .clobbered ps ++
      (trackedCode env.layout track (track.afterAll .clobbered ps) qs ++
        fallThroughCode ending)).path env i 0 s).visits := by
    rw [← Machine.path_append_assoc]
    exact hv
  obtain ⟨t, ht, hv⟩ := Machine.mem_visits_right hps hsplit (by omega)
  obtain ⟨g', hsteps, hmirrors, -⟩ :=
    steps_of_through hsound htrack h of_clobbered_eq_synced hwell ht
  have hstate := state_of_visit_trackedCode track _ ending hv (by omega)
  exact ⟨g', hsteps, hstate ▸ hmirrors⟩

end Listing

end Dynarec.Codegen
