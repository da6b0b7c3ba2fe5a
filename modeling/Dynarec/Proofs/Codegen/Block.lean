import Dynarec.Codegen.Compile
import Dynarec.Proofs.Codegen.Operation
import Dynarec.Proofs.Guest.Listing
import Dynarec.Proofs.Interpreter.Steps

/-!
# Code for blocks

The code of a block depends on what is tracked about the host flags from one instruction to the
next. `trackedCode` makes the **tracking** a parameter: `HostFlags.after` is the one that the
compiler uses, and a tracking is **cautious** if it never knows more than that. Under every cautious
tracking the code of a block performs the block (`yields_trackedBlock`).
-/

namespace Dynarec.Codegen

open Bridge (Layout MemoryInterface)
open Guest (Ending Image Operation Placed)
open Machine (Environment State Yields)
open Assembly (Code)
open Interpreter (blockDemands demandEvents runBlock runBlock_eq_steps steps)

variable {σ : Type} {env : Environment} {i : MemoryInterface σ} {g : Interpreter.State σ}
  {s : State σ}

/-! ### Trackings -/

/-- What is known about the host flags after an operation, from what was known before it. -/
abbrev Tracking := HostFlags → Operation → HostFlags

/-- Whether a tracking knows **no more** than the compiler does. -/
def Tracking.Cautious (track : Tracking) : Prop :=
  ∀ before operation, track before operation = .synced → before.after operation = .synced

/-- The tracking that knows **nothing**, under which the host flags are reloaded before every
conditional branch. -/
def Tracking.oblivious : Tracking := fun _ _ => .clobbered

theorem Tracking.cautious_after : Tracking.Cautious HostFlags.after := fun _ _ h => h

theorem Tracking.cautious_oblivious : Tracking.oblivious.Cautious := nofun

/-- What is known about the host flags after instructions. -/
def Tracking.afterAll (track : Tracking) (before : HostFlags) (ps : List Placed) : HostFlags :=
  ps.foldl (fun before p => track before p.instruction.operation) before

/-- The host code of instructions one after another under a tracking. -/
def trackedCode (layout : Layout) (track : Tracking) (before : HostFlags) : List Placed → Code
  | [] => .empty
  | p :: ps =>
    operationCode layout before p ++
      trackedCode layout track (track before p.instruction.operation) ps

/-- The exit at the end of a block through which control falls. -/
def fallThroughCode (ending : Ending) : Code :=
  if ending.fallsThrough then .straight (leaveFor (BitVec.ofNat 16 ending.cursor) .branch)
    else .empty

/-- The host code of a **block** under a tracking. -/
def trackedBlock (layout : Layout) (track : Tracking) (listing : List Placed) (ending : Ending) :
    Code :=
  trackedCode layout track .clobbered listing ++ fallThroughCode ending

theorem trackedCode_after (layout : Layout) (before : HostFlags) (ps : List Placed) :
    trackedCode layout HostFlags.after before ps = instructionsCode layout before ps := by
  induction ps generalizing before with
  | nil => rfl
  | cons p ps ih => rw [trackedCode, instructionsCode, ih]

theorem trackedBlock_after (layout : Layout) (listing : List Placed) (ending : Ending) :
    trackedBlock layout HostFlags.after listing ending = blockCode layout listing ending := by
  rw [trackedBlock, trackedCode_after, blockCode, fallThroughCode]

/-! ### Performing -/

/-- Code that performs instructions **one after another**, if the first of them stays in the
block. -/
theorem Performs.append {c d : Code} {es fs : List Machine.Event} {after after' : HostFlags}
    {outcome : Interpreter.State σ × Interpreter.Exit} (h : Performs env i c s es after (g, none))
    (h' : ∀ t, Mirrors env g t → (after = .synced → Synced t) →
      Performs env i d t fs after' outcome) :
    Performs env i (c ++ d) s (es ++ fs) after' outcome := by
  obtain ⟨t, ht, hmirrors, hsynced⟩ := h
  have hd := h' t hmirrors hsynced
  obtain ⟨g', _ | ⟨reason, pc⟩⟩ := outcome
  · obtain ⟨u, hu, hrest⟩ := hd
    exact ⟨u, ht.append hu, hrest⟩
  · obtain ⟨u, hu, hrest⟩ := hd
    exact ⟨u, ht.append hu, hrest⟩

/-- **The code of instructions** performs them, under every cautious tracking. The induction is on
the instructions, and carries along what is known about the host flags. -/
theorem performs_trackedCode (hsound : env.Sound) {track : Tracking} (htrack : track.Cautious)
    {ps : List Placed} (hwell : ∀ p ∈ ps, p.instruction.operation.WellFormed) {before : HostFlags}
    (h : Mirrors env g s) (hbefore : before = .synced → Synced s) :
    Performs env i (trackedCode env.layout track before ps) s (demandEvents (blockDemands i ps g))
      (track.afterAll before ps) (steps i ps g) := by
  -- the interpreter and the host flags go on from where the first instruction leaves them
  induction ps generalizing before g s with
  | nil => exact ⟨s, .empty s, h, hbefore⟩
  | cons p ps ih =>
    have hfirst := performs_operationCode (i := i) hsound h hbefore (hwell p List.mem_cons_self)
    rw [trackedCode]
    rcases hstep : Interpreter.step i p g with ⟨g', _ | ⟨reason, pc⟩⟩
    · rw [hstep] at hfirst
      rw [Interpreter.steps_through hstep, Interpreter.blockDemands_through hstep,
        Interpreter.demandEvents_append]
      exact hfirst.append fun t hmirrors hsynced =>
        ih (fun q hq => hwell q (List.mem_cons_of_mem _ hq)) hmirrors
          fun hb => hsynced (htrack _ _ hb)
    · rw [hstep] at hfirst
      rw [Interpreter.steps_left hstep, Interpreter.blockDemands_left hstep]
      obtain ⟨t, ht, hrest⟩ := hfirst
      exact ⟨t, ht.append_returned _, hrest⟩

/-- **The code of a block** does what the interpreter does, under every cautious tracking: it ends
with a return, in a state that stands for the one of the interpreter. -/
theorem yields_trackedBlock (hsound : env.Sound) {track : Tracking} (htrack : track.Cautious)
    {image : Image} {cursor : Nat} {listing : List Placed} {ending : Ending}
    (hreads : image.Reads cursor listing ending) (h : Mirrors env g s) :
    ∃ t, Yields env i (trackedBlock env.layout track listing ending) s
        (demandEvents (blockDemands i listing g)) .returned t ∧
      Mirrors env (runBlock i (BitVec.ofNat 16 ending.cursor) listing g).1 t ∧
      Left (runBlock i (BitVec.ofNat 16 ending.cursor) listing g).2.1
        (runBlock i (BitVec.ofNat 16 ending.cursor) listing g).2.2 t := by
  have hperforms := performs_trackedCode (i := i) hsound htrack hreads.wellFormed h
    of_clobbered_eq_synced
  rw [runBlock_eq_steps]
  rcases hsteps : steps i listing g with ⟨g', _ | ⟨reason, pc⟩⟩
  · rw [hsteps] at hperforms
    obtain ⟨u, hu, hmirrors, -⟩ := hperforms
    -- control that gets to the end of the block falls through: no last instruction can be passed
    have hfalls : ending.fallsThrough = true := by
      cases hfalls : ending.fallsThrough with
      | true => rfl
      | false =>
        obtain ⟨ps, p, rfl, hends⟩ := hreads.endsBlock hfalls
        have hexit := Interpreter.steps_of_endsBlock (i := i) ps hends g
        rw [hsteps] at hexit
        cases hexit
    obtain ⟨t, ht, hrest⟩ :=
      yields_leaveFor (i := i) hmirrors (BitVec.ofNat 16 ending.cursor) .branch
    rw [trackedBlock, fallThroughCode, if_pos hfalls]
    exact ⟨t, hu.append_quiet_right ht, hrest⟩
  · rw [hsteps] at hperforms
    obtain ⟨t, ht, hrest⟩ := hperforms
    exact ⟨t, ht.append_returned _, hrest⟩

end Dynarec.Codegen
