import Dynarec.Proofs.Codegen.Compile
import Dynarec.Proofs.Interpreter.Clock

/-!
# Which instruction calls a handler

The host code of the instructions of a block stands one after the other, so that the offset of a
visit tells the guest instruction it belongs to. A handler is called only from the code of an
instruction that is executed, and it is told the clock count with which that instruction ends
(`call_trackedBlock`).
-/

namespace Dynarec.Codegen

open Assembly (Code)
open Bridge (Layout MemoryInterface Request)
open Guest (Ending Image Placed)
open Interpreter (Demand demandEvents endCycles execution stepDemands)
open Machine (Environment Event State Visit eventsOf)

/-- **Where the host code** of the instructions after the given ones starts in their block. -/
def codeStart (layout : Layout) (ps : List Placed) : Nat :=
  (instructionsCode layout .clobbered ps).bytes.length

variable {σ : Type} {env : Environment} {i : MemoryInterface σ} {g : Interpreter.State σ}
  {s : State σ} {before : HostFlags} {offset : Nat} {v : Visit σ} {request : Request}
  {cycles : HostWord}

/-- A call meets a demand that is made at the clock count that the handler is told. -/
theorem exists_demand_of_call {demands : List (Demand × HostWord)}
    (h : .call request cycles ∈ demandEvents demands) :
    ∃ d, (d, cycles) ∈ demands := by
  obtain ⟨⟨d, told⟩, hd, hevent⟩ := List.mem_map.mp h
  replace hevent : d.event told = .call request cycles := hevent
  cases hdirect : d.isDirect with
  | true =>
    obtain ⟨access, stack, a, haccess⟩ := Demand.exists_access_of_isDirect hdirect
    rw [Demand.event_of_isDirect hdirect haccess] at hevent
    cases hevent
  | false =>
    rw [Demand.event_of_not_isDirect hdirect] at hevent
    cases hevent
    exact ⟨d, hd⟩

/-- **A call in the code of an instruction** tells the clock count with which it ends. -/
theorem cycles_of_call (hsound : env.Sound) (h : Mirrors env g s)
    (hbefore : before = .synced → Synced s) {p : Placed}
    (hwell : p.instruction.operation.WellFormed)
    (hv : v ∈ ((operationCode env.layout before p).path env i offset s).visits)
    (hcall : .call request cycles ∈ eventsOf env v.state v.instruction) :
    cycles = endCycles p g := by
  have hperforms := performs_operationCode (i := i) hsound h hbefore hwell
  have hmem := Machine.mem_events hv hcall
  rw [hperforms.events offset] at hmem
  obtain ⟨d, hd⟩ := exists_demand_of_call hmem
  exact (Interpreter.accounts_step p g).told _ hd

section Listing

variable {track : Tracking} (hsound : env.Sound) (htrack : track.Cautious)

include hsound htrack

/-- **A call in the code of instructions** is made by one that is executed. -/
theorem call_trackedCode {ps : List Placed} (hwell : ∀ p ∈ ps, p.instruction.operation.WellFormed)
    (h : Mirrors env g s) (hbefore : before = .synced → Synced s)
    (hv : v ∈ ((trackedCode env.layout track before ps).path env i offset s).visits)
    (hcall : .call request cycles ∈ eventsOf env v.state v.instruction) :
    ∃ k p t, (execution i ps g)[k]? = some (p, t) ∧
      offset + (trackedCode env.layout track before (ps.take k)).bytes.length ≤ v.offset ∧
      v.offset < offset + (trackedCode env.layout track before (ps.take (k + 1))).bytes.length ∧
      cycles = endCycles p t := by
  -- a visit is in the code of the first instruction, or after it once that has been passed
  induction ps generalizing before g s offset with
  | nil => cases hv
  | cons p ps ih =>
    have hfirst := fits_operationCode env.layout before p
    have hrest := fits_trackedCode env.layout track (track before p.instruction.operation) ps
    rw [trackedCode] at hv
    by_cases hlt : v.offset < offset + (operationCode env.layout before p).bytes.length
    · have hv := Machine.mem_visits_left hrest hv hlt
      have hle := ((Machine.within_path env i hfirst offset s).offsets v hv).1
      have hbytes : (trackedCode env.layout track before ((p :: ps).take 1)).bytes =
          (operationCode env.layout before p).bytes := List.append_nil _
      refine ⟨0, p, g, ?_, hle, ?_, ?_⟩
      · rw [execution]
        rfl
      · rwa [hbytes]
      · exact cycles_of_call hsound h hbefore (hwell p List.mem_cons_self) hv hcall
    · obtain ⟨t, ht, hv⟩ := Machine.mem_visits_right hfirst hv (Nat.le_of_not_lt hlt)
      have hperforms := performs_operationCode (i := i) hsound h hbefore
        (hwell p List.mem_cons_self)
      obtain ⟨g', hstep, hmirrors, hsynced⟩ := hperforms.of_through ht
      obtain ⟨k, q, u, hk, hle, hlt', hcycles⟩ :=
        ih (fun q hq => hwell q (List.mem_cons_of_mem _ hq)) hmirrors
          (fun hb => hsynced (htrack _ _ hb)) hv
      have hlength (n : Nat) :
          (trackedCode env.layout track before ((p :: ps).take (n + 1))).bytes.length =
            (operationCode env.layout before p).bytes.length +
              (trackedCode env.layout track (track before p.instruction.operation)
                (ps.take n)).bytes.length := by
        rw [List.take_succ_cons, trackedCode, Code.bytes_append, List.length_append]
      refine ⟨k + 1, q, u, ?_, ?_, ?_, hcycles⟩
      · rw [Interpreter.execution_through hstep]
        exact hk
      · rw [hlength]
        omega
      · rw [hlength]
        omega

/-- **A call in the code of a block** is made by an instruction that is executed, never by the exit
at its end. -/
theorem call_trackedBlock {image : Image} {cursor : Nat} {listing : List Placed} {ending : Ending}
    (hreads : image.Reads cursor listing ending) (h : Mirrors env g s)
    (hv : v ∈ ((trackedBlock env.layout track listing ending).path env i 0 s).visits)
    (hcall : .call request cycles ∈ eventsOf env v.state v.instruction) :
    ∃ k p t, (execution i listing g)[k]? = some (p, t) ∧
      (trackedCode env.layout track .clobbered (listing.take k)).bytes.length ≤ v.offset ∧
      v.offset < (trackedCode env.layout track .clobbered (listing.take (k + 1))).bytes.length ∧
      cycles = endCycles p t := by
  obtain ⟨hinstructions, hexit⟩ := fits_trackedBlock env.layout track listing ending
  by_cases hlt : v.offset < 0 + (trackedCode env.layout track .clobbered listing).bytes.length
  · have hcode := Machine.mem_visits_left hexit hv hlt
    simpa only [Nat.zero_add] using
      call_trackedCode hsound htrack hreads.wellFormed h of_clobbered_eq_synced hcode hcall
  · obtain ⟨t, ht, hv⟩ := Machine.mem_visits_right hinstructions hv (Nat.le_of_not_lt hlt)
    have hperforms := performs_trackedCode (i := i) hsound htrack hreads.wellFormed h
      of_clobbered_eq_synced
    obtain ⟨g', -, hmirrors, -⟩ := hperforms.of_through ht
    -- the exit does nothing to guest memory
    have hquiet : Machine.events env ((fallThroughCode ending).path env i
        (0 + (trackedCode env.layout track .clobbered listing).bytes.length) t).visits = [] := by
      rw [fallThroughCode]
      split
      · obtain ⟨u, hu, -⟩ :=
          yields_leaveFor (i := i) hmirrors (BitVec.ofNat 16 ending.cursor) .branch
        exact (hu _).2
      · rfl
    have hmem := Machine.mem_events hv hcall
    rw [hquiet] at hmem
    cases hmem

end Listing

end Dynarec.Codegen
