import Dynarec.Proofs.Codegen.Compile

/-!
# Host flags at conditional branches

The code of a conditional branch tests the host flags at one offset, `branchOffset` after its start.
Whatever tracking the code was generated under, every visit there is in a synced state, and the
guest's condition is the one that is tested (`visit_branch`).
-/

namespace Dynarec

open Assembly (Code)
open Bridge (Layout MemoryInterface)
open Guest (Condition Ending Operation Placed)
open Machine (Environment State Visit)

/-- The condition of a **conditional branch**. -/
def Guest.Operation.condition? : Operation → Option Condition
  | jump condition _ | jumpRelative condition _ | call condition _ | ret condition => condition
  | _ => none

namespace Codegen

open Interpreter (steps)

variable {σ : Type} {env : Environment} {i : MemoryInterface σ} {g : Interpreter.State σ}
  {s : State σ}

/-! ### Where the branches are -/

/-- The distance from the start of an instruction's code to the end of what reloads the host
flags. -/
def branchOffset (before : HostFlags) (p : Placed) : Nat :=
  (Assembly.straightBytes (addCycles p.instruction.cycles.base)).length +
    (Assembly.straightBytes (reload before)).length

/-- Where the host branch of a conditional branch stands in the code of its block. `ps` are the
instructions before it. -/
def branchPosition (layout : Layout) (track : Tracking) (ps : List Placed) (p : Placed) : Nat :=
  (trackedCode layout track .clobbered ps).bytes.length +
    branchOffset (track.afterAll .clobbered ps) p

/-- The code of a **conditional branch**: it counts cycles, reloads the host flags and tests them.
What is skipped depends on the operation. -/
theorem operationCode_of_condition (layout : Layout) (before : HostFlags) {p : Placed}
    {condition : Condition} (h : p.instruction.operation.condition? = some condition) :
    ∃ width body, operationCode layout before p =
      .straight (addCycles p.instruction.cycles.base) ++
        (.straight (reload before) ++ .skip (hostCondition condition).invert width body) := by
  rw [operationCode]
  cases hoperation : p.instruction.operation with
  | jump condition' target | jumpRelative condition' offset | call condition' target
  | ret condition' =>
    rw [hoperation] at h
    obtain rfl : condition' = some condition := h
    cases before <;> exact ⟨_, _, rfl⟩
  | _ =>
    rw [hoperation] at h
    cases h

theorem branchOffset_lt (layout : Layout) (before : HostFlags) {p : Placed} {condition : Condition}
    (h : p.instruction.operation.condition? = some condition) :
    branchOffset before p < (operationCode layout before p).bytes.length := by
  obtain ⟨width, body, hcode⟩ := operationCode_of_condition layout before h
  have hpos := Assembly.branchLength_pos (some (hostCondition condition).invert) width
  simp only [hcode, Assembly.Code.bytes_append, Assembly.Code.bytes, List.length_append,
    Assembly.length_branchOver, branchOffset]
  omega

/-! ### The code of the first instructions -/

/-- The bytes of the code of instructions are those of the first and those of the other ones, with
the host flags as the first leave them. -/
theorem bytes_trackedCode_append (layout : Layout) (track : Tracking) (before : HostFlags)
    (ps qs : List Placed) :
    (trackedCode layout track before (ps ++ qs)).bytes =
      (trackedCode layout track before ps).bytes ++
        (trackedCode layout track (track.afterAll before ps) qs).bytes := by
  induction ps generalizing before with
  | nil => rfl
  | cons p ps ih =>
    rw [List.cons_append, trackedCode, trackedCode, Code.bytes_append, ih, Code.bytes_append,
      List.append_assoc]
    rfl

/-- The path through the code of instructions is the one through the code of the first and the
code of the other ones. -/
theorem path_trackedCode_append (layout : Layout) (track : Tracking) (before : HostFlags)
    (ps qs : List Placed) (offset : Nat) (s : State σ) :
    (trackedCode layout track before (ps ++ qs)).path env i offset s =
      (trackedCode layout track before ps ++
        trackedCode layout track (track.afterAll before ps) qs).path env i offset s := by
  induction ps generalizing before offset s with
  | nil => rfl
  | cons p ps ih =>
    rw [List.cons_append, trackedCode, trackedCode, Machine.path_append_assoc, Code.path_append,
      Code.path_append]
    exact congrArg _ (funext fun t => ih _ _ t)

variable {track : Tracking} {before : HostFlags} {ps qs : List Placed} {offset : Nat}

section Passing

variable (hsound : env.Sound) (htrack : track.Cautious) (h : Mirrors env g s)
  (hbefore : before = .synced → Synced s)

include hsound htrack h hbefore

/-- The first instructions of a block **are passed** if none of them leaves it. -/
theorem through_of_steps (hwell : ∀ p ∈ ps, p.instruction.operation.WellFormed)
    {g' : Interpreter.State σ} (hsteps : steps i ps g = (g', none)) (offset : Nat) :
    ∃ t, ((trackedCode env.layout track before ps).path env i offset s).outcome =
      .ok (.through, t) ∧
      Mirrors env g' t ∧ (track.afterAll before ps = .synced → Synced t) := by
  have hperforms := performs_trackedCode (i := i) hsound htrack hwell h hbefore
  rw [hsteps] at hperforms
  obtain ⟨t, ht, hmirrors, hsynced⟩ := hperforms
  exact ⟨t, (ht offset).1, hmirrors, hsynced⟩

/-- Instructions that have been passed have not left the block. -/
theorem steps_of_through (hwell : ∀ p ∈ ps, p.instruction.operation.WellFormed) {t : State σ}
    (ht : ((trackedCode env.layout track before ps).path env i offset s).outcome =
      .ok (.through, t)) :
    ∃ g', steps i ps g = (g', none) ∧ Mirrors env g' t ∧
      (track.afterAll before ps = .synced → Synced t) := by
  exact (performs_trackedCode hsound htrack hwell h hbefore).of_through ht

/-- The code of an instruction **is entered** once the instructions before it have been passed. -/
theorem exists_visit_of_steps (hwell : ∀ p ∈ ps, p.instruction.operation.WellFormed)
    {g' : Interpreter.State σ} (hsteps : steps i ps g = (g', none)) (p : Placed) (qs : List Placed)
    (offset : Nat) :
    ∃ v ∈ ((trackedCode env.layout track before (ps ++ p :: qs)).path env i offset s).visits,
      v.offset = offset + (trackedCode env.layout track before ps).bytes.length ∧
        Mirrors env g' v.state := by
  obtain ⟨t, ht, hmirrors, -⟩ := through_of_steps hsound htrack h hbefore hwell hsteps offset
  obtain ⟨v, hv, ho, rfl⟩ := Machine.exists_mem_visits_straight env i (addCycles_ne_nil p)
    (offset + (trackedCode env.layout track before ps).bytes.length) t
  refine ⟨v, ?_, ho, hmirrors⟩
  rw [path_trackedCode_append]
  exact Machine.mem_visits_append_right ht
    (Machine.mem_visits_append_left _ (Machine.mem_visits_append_left _ hv))

end Passing

/-! ### Visits of branches -/

/-- A **visit of a host branch** that tests a guest condition: the host flags equal the shadow
flags, those are the guest's flags, and the host branch skips the taking of the guest's branch
exactly if the guest's condition does not hold. -/
structure TestsGuest (condition : Condition) (g : Interpreter.State σ) (v : Visit σ) : Prop where
  branch : ∃ width displacement,
    v.instruction = .branch (some (hostCondition condition).invert) width displacement
  zero : v.state.flags.zero = (v.state.registers.get shadowFlags).getLsbD 6
  carry : v.state.flags.carry = (v.state.registers.get shadowFlags).getLsbD 0
  shadow : v.state.registers.get shadowFlags = shadowWord g.zero g.carry
  skips : (hostCondition condition).invert.holds v.state.flags = !condition.holds g.zero g.carry

theorem TestsGuest.of_synced {condition : Condition} {g g' : Interpreter.State σ} {v : Visit σ}
    (h : Mirrors env g' v.state) (hsynced : Synced v.state) (hzero : g'.zero = g.zero)
    (hcarry : g'.carry = g.carry)
    (hbranch : ∃ width displacement,
      v.instruction = .branch (some (hostCondition condition).invert) width displacement) :
    TestsGuest condition g v where
  branch := hbranch
  zero := by
    have hflags : v.state.flags = .ofWord (v.state.registers.get shadowFlags) := hsynced
    rw [hflags]
    rfl
  carry := by
    have hflags : v.state.flags = .ofWord (v.state.registers.get shadowFlags) := hsynced
    rw [hflags]
    rfl
  shadow := by rw [h.flags, hzero, hcarry]
  skips := by rw [hsynced.holds h, hzero, hcarry]

/-- The visit of a branch in the code of its instruction is made with the host flags of the guest:
they have been reloaded, or were known to be synced. -/
theorem visit_branch_first (h : Mirrors env g s) {before : HostFlags}
    (hbefore : before = .synced → Synced s) {p : Placed} {condition : Condition}
    (hcondition : p.instruction.operation.condition? = some condition) {offset : Nat} {v : Visit σ}
    (hv : v ∈ ((operationCode env.layout before p).path env i offset s).visits)
    (ho : v.offset = offset + branchOffset before p) : TestsGuest condition g v := by
  have hfits := fits_operationCode env.layout before p
  obtain ⟨width, body, hcode⟩ :=
    operationCode_of_condition env.layout before hcondition
  rw [hcode] at hv hfits
  obtain ⟨haddCycles, hreload, hskip⟩ := hfits
  rw [branchOffset, ← Nat.add_assoc] at ho
  -- the cycles are counted, the flags are reloaded, and then there is the branch
  obtain ⟨t, ht, hv⟩ := Machine.mem_visits_right haddCycles hv (by rw [Code.bytes]; omega)
  obtain ⟨u, hu, hv⟩ := Machine.mem_visits_right hreload hv (by rw [Code.bytes, Code.bytes]; omega)
  have hbranch := Machine.mem_visits_skip hskip.1 hv (by rw [ho, Code.bytes, Code.bytes])
  obtain ⟨t', ht', -, hmirrors, hflags⟩ :=
    runs_addCycles (i := i) h p.instruction.operation.cycles_lt.1
  obtain rfl : t' = t := by
    have houtcome := (ht'.path offset).1.symm.trans ht
    cases houtcome
    rfl
  have hcounted (hb : before = .synced) : Synced t' :=
    (hbefore hb).of_flags h hmirrors rfl rfl hflags
  obtain ⟨u', hu', hchanges, hsynced⟩ := runs_reload (i := i) hmirrors hcounted
  obtain rfl : u' = u := by
    have houtcome := (hu'.path _).1.symm.trans hu
    cases houtcome
    rfl
  have hmirrors' := hmirrors.free hchanges (by decide)
  rw [hbranch]
  exact .of_synced hmirrors' hsynced rfl rfl ⟨width, _, rfl⟩

/-- The branch of an instruction's code **is visited**, whether or not it is taken. -/
theorem exists_visit_first (h : Mirrors env g s) {before : HostFlags}
    (hbefore : before = .synced → Synced s) {p : Placed} {condition : Condition}
    (hcondition : p.instruction.operation.condition? = some condition) (offset : Nat) :
    ∃ v ∈ ((operationCode env.layout before p).path env i offset s).visits,
      v.offset = offset + branchOffset before p := by
  obtain ⟨width, body, hcode⟩ :=
    operationCode_of_condition env.layout before hcondition
  obtain ⟨t, ht, -, hmirrors, hflags⟩ :=
    runs_addCycles (i := i) h p.instruction.operation.cycles_lt.1
  have hcounted (hb : before = .synced) : Synced t :=
    (hbefore hb).of_flags h hmirrors rfl rfl hflags
  obtain ⟨u, hu, -⟩ := runs_reload (i := i) hmirrors hcounted
  have hvisit :=
    Machine.branchVisit_mem_visits_skip env i (hostCondition condition).invert width body
    (offset + branchOffset before p) u
  rw [branchOffset, ← Nat.add_assoc] at hvisit
  rw [hcode]
  exact ⟨_, Machine.mem_visits_append_right (ht.path offset).1
    (Machine.mem_visits_append_right (hu.path _).1 hvisit), Nat.add_assoc _ _ _⟩

section Listing

variable (hsound : env.Sound) (htrack : track.Cautious) (h : Mirrors env g s)
  (hbefore : before = .synced → Synced s)
  (hwell : ∀ q ∈ ps, q.instruction.operation.WellFormed) {p : Placed} {condition : Condition}
  (hcondition : p.instruction.operation.condition? = some condition)

include hsound htrack h hbefore hwell hcondition

/-- **Every visit of a branch** is in a synced state, once the instructions before it have been
passed. -/
theorem visit_branch {v : Visit σ}
    (hv : v ∈ ((trackedCode env.layout track before (ps ++ p :: qs)).path env i offset s).visits)
    (ho : v.offset = offset + (trackedCode env.layout track before ps).bytes.length +
      branchOffset (track.afterAll before ps) p) :
    ∃ g', steps i ps g = (g', none) ∧ TestsGuest condition g' v := by
  have hps := fits_trackedCode env.layout track before ps
  have hqs := fits_trackedCode env.layout track
    (track (track.afterAll before ps) p.instruction.operation) qs
  have hlt := branchOffset_lt env.layout (track.afterAll before ps) hcondition
  rw [path_trackedCode_append] at hv
  obtain ⟨t, ht, hv⟩ := Machine.mem_visits_right hps hv (by omega)
  obtain ⟨g', hsteps, hmirrors, hsynced⟩ := steps_of_through hsound htrack h hbefore hwell ht
  exact ⟨g', hsteps, visit_branch_first hmirrors hsynced hcondition
    (Machine.mem_visits_left hqs hv (by omega)) ho⟩

/-- A branch **is visited** whenever the instructions before it have been passed. -/
theorem exists_visit_branch (qs : List Placed) {g' : Interpreter.State σ}
    (hsteps : steps i ps g = (g', none)) (offset : Nat) :
    ∃ v ∈ ((trackedCode env.layout track before (ps ++ p :: qs)).path env i offset s).visits,
      v.offset = offset + (trackedCode env.layout track before ps).bytes.length +
        branchOffset (track.afterAll before ps) p := by
  obtain ⟨t, ht, hmirrors, hsynced⟩ :=
    through_of_steps hsound htrack h hbefore hwell hsteps offset
  obtain ⟨v, hv, ho⟩ := exists_visit_first (i := i) hmirrors hsynced hcondition
    (offset + (trackedCode env.layout track before ps).bytes.length)
  refine ⟨v, ?_, ho⟩
  rw [path_trackedCode_append]
  exact Machine.mem_visits_append_right ht (Machine.mem_visits_append_left _ hv)

end Listing

end Codegen

end Dynarec
