import Dynarec.Proofs.Codegen.Branches
import Dynarec.Proofs.Vm.SingleSteps

/-!
# The size of blocks

How many instructions a block may hold cannot be observed, as long as the guest code of a block does
not change while the block is executed: a run is as many runs of a machine with blocks of one
instruction as it executes instructions (`leadsTo_of_stays`). So a program that stops under one
limit, and never changes code that has been compiled, stops with the same result under any other
limit under which it can be compiled.
-/

namespace Dynarec

open Bridge (GuestMemory)
open Codegen (CompiledBlock Translates)
open Guest (Ending ExitReason Image Placed Range Window)
open Interpreter (blockDemands demandEvents executed runBlock steps)
open Machine (Event)

variable {σ : Type} {setup : Setup σ}

namespace VirtualMachine

/-! ### Guest code that stays -/

/-- Whether the guest bytes of a range **stay** as they are in a window, from the start to the end
of the execution of a block. -/
def Stays (setup : Setup σ) (vm : VirtualMachine σ) (block : CompiledBlock) (range : Range)
    (window : Window) : Prop :=
  ∀ v ∈ vm.visits setup block, ∀ a, range.contains a = true →
    v.state.memory.window.get a = window.get a

variable {vm : VirtualMachine σ} {block : CompiledBlock} {window : Window} {start : Address}
  {listing : List Placed} {ending : Ending}

/-- Guest bytes that stay are there **between the instructions** of the block: at the start of each,
the machine code has done to guest memory what the instructions before it do. -/
theorem staysAsRead_of_stays (hsound : setup.env.Sound)
    (h : block.BelongsTo setup.env.layout window.image start listing ending)
    (hstays : vm.Stays setup block block.range window) :
    StaysAsRead setup window.image start.toNat ending.cursor listing vm.entry := by
  intro ps p qs g hlisting hsteps k hlower hupper
  have hcode : block.program.code = (Codegen.trackedBlock setup.env.layout Codegen.HostFlags.after
      listing ending).bytes := by
    rw [Codegen.trackedBlock_after]
    exact h.translates.code
  have hwell := h.reads.wellFormed
  have hend := h.reads.cursor_lt.2
  have hvisits := Codegen.visits_of_reads hsound Codegen.Tracking.cautious_after h.reads hcode vm
  subst hlisting
  -- the host is somewhere with the guest memory that the interpreter has there
  obtain ⟨v, hv, -, hmirrors⟩ := Codegen.exists_visit_of_steps (i := setup.interface) hsound
    Codegen.Tracking.cautious_after
    (Codegen.mirrors_enter setup.env vm.cpu vm.contextCycles vm.memory)
    Codegen.of_clobbered_eq_synced (fun q hq => hwell q (List.mem_append_left _ hq)) hsteps p qs 0
  have hmem : v ∈ vm.visits setup block := by
    rw [hvisits]
    exact Machine.mem_visits_append_left _ hv
  have hk : (BitVec.ofNat 16 k).toNat = k :=
    (BitVec.toNat_ofNat k 16).trans (Nat.mod_eq_of_lt (Nat.lt_of_lt_of_le hupper hend))
  have hcontains : block.range.contains (BitVec.ofNat 16 k) = true := by
    rw [Range.contains_iff, hk, h.translates.start, h.translates.stop]
    exact ⟨hlower, hupper⟩
  have hbyte := hstays v hmem _ hcontains
  rw [hmirrors.memory] at hbyte
  exact hbyte

/-! ### One run -/

/-- The number of guest instructions that a run executes. -/
def instructionsRun (setup : Setup σ) (vm : VirtualMachine σ) : Nat :=
  executed setup.interface
    (Codegen.scan setup.config vm.memory.window.image vm.cpu.nextAddress).listing vm.entry

/-- **A block, one instruction after another**, on a machine with blocks of one instruction and an
empty cache. -/
theorem leadsTo_of_stays (hsound : setup.env.Sound)
    (h : block.BelongsTo setup.env.layout window.image vm.cpu.nextAddress listing ending)
    (hstays : vm.Stays setup block block.range window) (keep : Bool) :
    vm.forget.LeadsTo (setup.withLimit 1) keep (executed setup.interface listing vm.entry)
      (runBlock setup.interface (BitVec.ofNat 16 ending.cursor) listing vm.entry)
      (demandEvents (blockDemands setup.interface listing vm.entry)) := by
  have hsound' : (setup.withLimit 1).env.Sound := hsound
  have hentry : StaysAsRead (setup.withLimit 1) window.image vm.cpu.nextAddress.toNat ending.cursor
      listing vm.forget.entry := staysAsRead_of_stays hsound h hstays
  exact singles_of_reads hsound' rfl keep rfl h.reads rfl (fun _ _ => rfl) hentry

end VirtualMachine

/-! ### Results -/

/-- How a run ended and what it left: the outcome, the guest processor, guest memory and the clock
count. -/
def Report.result (r : Report σ) : Except VmError ExitReason × Cpu × GuestMemory σ × HostWord :=
  (r.outcome, r.cpu, r.memory, r.contextCycles)

/-- Two reports that show the same run of the interpreter have the same result. -/
theorem Report.Shows.result_eq {r q : Report σ} {out : Interpreter.State σ × ExitReason × Address}
    (h : r.Shows out) (h' : q.Shows out) : r.result = q.result := by
  rw [result, result, h.outcome, h.cpu, h.memory, h.contextCycles, h'.outcome, h'.cpu, h'.memory,
    h'.contextCycles]

/-- Whether none of some reports **stops**. -/
def GoesOn (reports : List (Report σ)) : Prop := ∀ r ∈ reports, r.outcome ≠ .ok .stop

/-- Whether the last one of some reports is the first one that **stops**. -/
def Stops (reports : List (Report σ)) (last : Report σ) : Prop :=
  ∃ init, reports = init ++ [last] ∧ GoesOn init ∧ last.outcome = .ok .stop

theorem goesOn_nil : GoesOn ([] : List (Report σ)) := fun _ hr => absurd hr List.not_mem_nil

/-- Reports go on if those of both parts do. -/
theorem goesOn_append {rs qs : List (Report σ)} : GoesOn (rs ++ qs) ↔ GoesOn rs ∧ GoesOn qs :=
  List.forall_mem_append

theorem goesOn_singleton {r : Report σ} : GoesOn [r] ↔ r.outcome ≠ .ok .stop := by
  simp [GoesOn]

/-- Runs that end with a branch go on. -/
theorem goesOn_of_branch {rs : List (Report σ)} (h : ∀ r ∈ rs, r.outcome = .ok .branch) :
    GoesOn rs := fun r hr hstop => by
  rw [h r hr] at hstop
  cases hstop

/-- Reports that go on can be put in front of others that stop. -/
theorem Stops.append {rs qs : List (Report σ)} {last : Report σ} (h : Stops qs last)
    (hrs : GoesOn rs) : Stops (rs ++ qs) last := by
  obtain ⟨init, rfl, hinit, hstop⟩ := h
  exact ⟨rs ++ init, (List.append_assoc _ _ _).symm, goesOn_append.mpr ⟨hrs, hinit⟩, hstop⟩

/-- There is one last report only. -/
theorem Stops.eq_last {rs : List (Report σ)} {r q : Report σ} (h : Stops rs r) (h' : Stops rs q) :
    r = q := by
  obtain ⟨init, rfl, -⟩ := h
  obtain ⟨init', heq, -⟩ := h'
  exact (List.append_singleton_inj.mp heq).2

/-- Reports do not both stop and go on. -/
theorem Stops.not_goesOn {rs : List (Report σ)} {r : Report σ} (h : Stops rs r) : ¬ GoesOn rs := by
  obtain ⟨init, rfl, -, hstop⟩ := h
  exact fun hgoesOn => hgoesOn r (List.mem_append_right _ List.mem_cons_self) hstop

/-- What is left of reports that stop, behind a first one that does not. -/
theorem Stops.tail {rs : List (Report σ)} {r last : Report σ} (h : Stops (r :: rs) last)
    (hr : r.outcome ≠ .ok .stop) : Stops rs last := by
  obtain ⟨_ | ⟨q, init⟩, heq, hinit, hstop⟩ := h
  · cases heq
    exact absurd hstop hr
  · cases heq
    exact ⟨init, rfl, (List.forall_mem_cons.mp hinit).2, hstop⟩

/-- Reports that stop are determined by any longer ones that stop: what comes after the first that
stops would be too much. -/
theorem Stops.eq_of_le {rs qs : List (Report σ)} {r q : Report σ} (h : Stops rs r)
    (h' : Stops qs q) (hfirst : rs <+: qs) : rs = qs := by
  obtain ⟨init, rfl, -, hstop⟩ := h
  obtain ⟨init', rfl, hinit', -⟩ := h'
  rcases List.prefix_concat_iff.mp hfirst with heq | hinit
  · exact heq
  · exact absurd hstop (hinit' r (hinit.subset (List.mem_append_right _ List.mem_cons_self)))

/-! ### Run after run -/

namespace VirtualMachine

/-- Whether **code that has been compiled never changes**, in run after run up to the first one that
stops. `code` is the guest code compiled before, each range with the window at that time. -/
def KeepsCode (setup : Setup σ) : (runs : Nat) → List (Range × Window) → VirtualMachine σ → Prop
  | 0, _, _ => True
  | runs + 1, code, vm =>
    match vm.blockAt setup vm.cpu.nextAddress with
    | .error _ => True
    | .ok (block, _) =>
      let code := (block.range, vm.memory.window) :: code
      (∀ c ∈ code, vm.Stays setup block c.1 c.2) ∧
        ((vm.run setup).1 ≠ .ok .stop → KeepsCode setup runs code (vm.run setup).2)

/-- Whether every block in the cache belongs to guest code that has been compiled. -/
def Known (setup : Setup σ) (code : List (Range × Window)) (vm : VirtualMachine σ) : Prop :=
  ∀ a block, vm.cache.find? a = some block →
    ∃ window listing ending, (block.range, window) ∈ code ∧
      block.BelongsTo setup.env.layout window.image a listing ending

variable {vm vm' : VirtualMachine σ} {block : CompiledBlock} {code : List (Range × Window)}

/-- A machine with an empty cache has no block that has to be known. -/
theorem known_forget (setup : Setup σ) (code : List (Range × Window)) (vm : VirtualMachine σ) :
    vm.forget.Known setup code := nofun

/-- Whatever block a run executes, its guest code is **known** then, and so is that of all others:
it was known before, or has just been compiled from memory as it is. -/
theorem Known.blockAt (h : vm.Known setup code) {start : Address}
    (hblock : vm.blockAt setup start = .ok (block, vm')) :
    (∃ window listing ending, (block.range, window) ∈ (block.range, vm.memory.window) :: code ∧
      block.BelongsTo setup.env.layout window.image start listing ending) ∧
    vm'.Known setup ((block.range, vm.memory.window) :: code) := by
  -- blocks that have been there still belong to their guest code
  have hmono {a : Address} {b : CompiledBlock} (hb : vm.cache.find? a = some b) :
      ∃ window listing ending, (b.range, window) ∈ (block.range, vm.memory.window) :: code ∧
        b.BelongsTo setup.env.layout window.image a listing ending := by
    obtain ⟨window, listing, ending, hmem, hbelongs⟩ := h a b hb
    exact ⟨window, listing, ending, List.mem_cons_of_mem _ hmem, hbelongs⟩
  rw [VirtualMachine.blockAt] at hblock
  split at hblock
  · next hfind =>
    cases hblock
    exact ⟨hmono hfind, fun a b hb => hmono hb⟩
  · split at hblock
    · cases hblock
    · next hcompile =>
      cases hblock
      obtain ⟨ending, -, hbelongs⟩ := belongsTo_of_compile hcompile
      have hnew : ∃ window listing ending,
          (block.range, window) ∈ (block.range, vm.memory.window) :: code ∧
            block.BelongsTo setup.env.layout window.image start listing ending :=
        ⟨_, _, ending, List.mem_cons_self, hbelongs⟩
      refine ⟨hnew, fun a b hb => ?_⟩
      by_cases ha : a = start
      · subst ha
        rw [Cache.find?_insert_self] at hb
        cases hb
        exact hnew
      · exact hmono ((Cache.find?_insert_of_ne ha block).symm.trans hb)

/-- **One run**, as runs of a machine with blocks of one instruction: all but the last end with a
branch, and the last one has the result of the one run. -/
theorem singles_of_run (hsound : setup.env.Sound) (hknown : vm.Known setup code)
    (hblock : vm.blockAt setup vm.cpu.nextAddress = .ok (block, vm'))
    (hstays : ∀ c ∈ (block.range, vm.memory.window) :: code, vm.Stays setup block c.1 c.2) :
    ∃ count init last, vm.forget.reportsWith (setup.withLimit 1) false count = init ++ [last] ∧
      (∀ r ∈ init, r.outcome = .ok .branch) ∧ last.result = (vm.report setup).result ∧
      (init ++ [last]).flatMap (·.events) = (vm.report setup).events ∧
      vm.forget.afterRuns (setup.withLimit 1) false count = (vm.run setup).2.forget ∧
      (∃ reason, (vm.run setup).1 = .ok reason) ∧
      (vm.run setup).2.Known setup ((block.range, vm.memory.window) :: code) := by
  obtain ⟨⟨window, listing, ending, hmem, hbelongs⟩, hknown'⟩ := hknown.blockAt hblock
  obtain ⟨init, last, hreports, hinit, hshows, hevents, hafter⟩ :=
    leadsTo_of_stays hsound hbelongs (hstays _ hmem) false
  obtain ⟨hrun, -⟩ := run_of_belongsTo hsound hblock hbelongs
  obtain ⟨hreport, hrunEvents⟩ := report_of_belongsTo hsound hblock hbelongs
  refine ⟨_, init, last, hreports, hinit, hshows.result_eq hreport, hevents.trans hrunEvents.symm,
    ?_, ?_, ?_⟩
  · rw [hafter rfl, hrun]
    rfl
  · rw [hrun]
    exact ⟨_, rfl⟩
  · rw [hrun]
    exact hknown'

/-- What can be told about the first runs of a machine from those of a machine with blocks of one
instruction: both go on, the latter for at least as many runs, or both stop with the same result. -/
def Matches (limit : Nat) (big single : List (Report σ)) : Prop :=
  big.flatMap (·.events) = single.flatMap (·.events) ∧
    ((limit ≤ single.length ∧ GoesOn big ∧ GoesOn single) ∨
      ∃ last last', Stops big last ∧ Stops single last' ∧ last.result = last'.result)

/-- One more run that goes on, together with its single steps. -/
theorem Matches.cons {limit : Nat} {r last : Report σ} {rs init qs : List (Report σ)}
    (hinit : GoesOn init) (hresult : last.result = r.result) (hr : r.outcome ≠ .ok .stop)
    (hevents : (init ++ [last]).flatMap (·.events) = r.events) (h : Matches limit rs qs) :
    Matches (limit + 1) (r :: rs) (init ++ [last] ++ qs) := by
  have hlast : last.outcome = r.outcome := congrArg Prod.fst hresult
  have hgoesOn : GoesOn (init ++ [last]) :=
    goesOn_append.mpr ⟨hinit, goesOn_singleton.mpr (hlast ▸ hr)⟩
  obtain ⟨hflat, h⟩ := h
  refine ⟨by rw [List.flatMap_cons, List.flatMap_append, hevents, hflat], ?_⟩
  rcases h with ⟨hlimit, hrs, hqs⟩ | ⟨q, q', hq, hq', hsame⟩
  · refine .inl ⟨?_, List.forall_mem_cons.mpr ⟨hr, hrs⟩, goesOn_append.mpr ⟨hgoesOn, hqs⟩⟩
    simp only [List.length_append, List.length_singleton]
    omega
  · exact .inr ⟨q, q', hq.append (goesOn_singleton.mpr hr), hq'.append hgoesOn, hsame⟩

/-- A run that stops, together with its single steps. -/
theorem Matches.stop {limit : Nat} {r last : Report σ} {init : List (Report σ)}
    (hinit : GoesOn init) (hresult : last.result = r.result) (hr : r.outcome = .ok .stop)
    (hevents : (init ++ [last]).flatMap (·.events) = r.events) :
    Matches limit [r] (init ++ [last]) := by
  have hlast : last.outcome = r.outcome := congrArg Prod.fst hresult
  refine ⟨by rw [hevents, List.flatMap_singleton], .inr ⟨r, last, ?_, ?_, hresult.symm⟩⟩
  · exact ⟨[], rfl, goesOn_nil, hr⟩
  · exact ⟨init, rfl, hinit, hlast.trans hr⟩

/-- **Run after run**, as runs of a machine with blocks of one instruction. The induction is on the
number of runs, and carries along which guest code the blocks in the cache belong to. -/
theorem singles_of_reports (hsound : setup.env.Sound) {limit : Nat} (hknown : vm.Known setup code)
    (hkeeps : vm.KeepsCode setup limit code)
    (hcompiles : ∀ r ∈ vm.reportsUntilStop setup limit, ∀ e, r.outcome ≠ .error (.compile e)) :
    ∃ count, Matches limit (vm.reportsUntilStop setup limit)
      (vm.forget.reportsWith (setup.withLimit 1) false count) := by
  induction limit generalizing vm code with
  | zero => exact ⟨0, rfl, .inl ⟨Nat.le_refl _, goesOn_nil, goesOn_nil⟩⟩
  | succ limit ih =>
    rw [KeepsCode] at hkeeps
    rcases hblock : vm.blockAt setup vm.cpu.nextAddress with e | ⟨block, vm'⟩
    · -- no block can be compiled, which is excluded
      have hfailed : (vm.report setup).outcome = .error (.compile e) := by
        rw [report, run, hblock]
      rw [reportsUntilStop] at hcompiles
      exact absurd hfailed (hcompiles _ List.mem_cons_self e)
    · rw [hblock] at hkeeps
      obtain ⟨hstays, hrest⟩ := hkeeps
      obtain ⟨count, init, last, hreports, hinit, hresult, hevents, hafter, ⟨reason, hreason⟩,
        hknown'⟩ := singles_of_run hsound hknown hblock hstays
      have houtcome : (vm.report setup).outcome = .ok reason := hreason
      -- the single runs of the block end as it does: they stop, or the rest of them follow
      by_cases hstop : reason = .stop
      · subst hstop
        rw [reportsUntilStop_of_stop hreason]
        exact ⟨count, hreports ▸ .stop (goesOn_of_branch hinit) hresult houtcome hevents⟩
      · have hne : (vm.run setup).1 ≠ .ok .stop := by
          rw [hreason]
          exact fun h => hstop (Except.ok.inj h)
        rw [reportsUntilStop_of_ok hreason hstop] at hcompiles ⊢
        obtain ⟨count', hmatches⟩ := ih hknown' (hrest hne)
          fun r hr => hcompiles r (List.mem_cons_of_mem _ hr)
        refine ⟨count + count', ?_⟩
        rw [reportsWith_add, hreports, hafter]
        exact hmatches.cons (goesOn_of_branch hinit) hresult hne hevents

/-- Reports of fewer runs are the first ones of more. -/
theorem reportsWith_le (setup : Setup σ) (keep : Bool) {m n : Nat} (h : m ≤ n)
    (vm : VirtualMachine σ) :
    vm.reportsWith setup keep m <+: vm.reportsWith setup keep n := by
  obtain ⟨k, rfl⟩ := Nat.exists_eq_add_of_le h
  rw [reportsWith_add]
  exact List.prefix_append _ _

/-- Two programs of runs of the same machine, both up to the first that stops, **are the same**,
however long they were to be. -/
theorem reportsWith_eq_of_stops {keep : Bool} {m n : Nat} {vm : VirtualMachine σ} {r q : Report σ}
    (hm : Stops (vm.reportsWith setup keep m) r) (hn : Stops (vm.reportsWith setup keep n) q) :
    vm.reportsWith setup keep m = vm.reportsWith setup keep n := by
  rcases Nat.le_total m n with h | h
  · exact hm.eq_of_le hn (reportsWith_le setup keep h vm)
  · exact (hn.eq_of_le hm (reportsWith_le setup keep h vm)).symm

/-- No run fails **before a machine stops**: a run that fails is the last one. -/
theorem outcome_of_stops {limit : Nat} {vm : VirtualMachine σ} {last : Report σ}
    (h : Stops (vm.reportsUntilStop setup limit) last) :
    ∀ r ∈ vm.reportsUntilStop setup limit, ∀ e, r.outcome ≠ .error e := by
  induction limit generalizing vm with
  | zero =>
    obtain ⟨init, heq, -⟩ := h
    exact absurd heq.symm (by simp [reportsUntilStop])
  | succ limit ih =>
    rcases hrun : (vm.run setup).1 with e | reason
    · have hfailed : (vm.report setup).outcome = .error e := hrun
      rw [reportsUntilStop, hrun] at h
      have hnone := h.tail (by simp [hfailed])
      exact absurd goesOn_nil hnone.not_goesOn
    · have houtcome : (vm.report setup).outcome = .ok reason := hrun
      have hhead (e : VmError) : (vm.report setup).outcome ≠ .error e := by
        simp [houtcome]
      by_cases hstop : reason = .stop
      · subst hstop
        rw [reportsUntilStop_of_stop hrun]
        exact fun r hr => List.mem_singleton.mp hr ▸ hhead
      · have hgoesOn : (vm.report setup).outcome ≠ .ok .stop := by
          rw [houtcome]
          exact fun h => hstop (Except.ok.inj h)
        rw [reportsUntilStop_of_ok hrun hstop] at h ⊢
        exact List.forall_mem_cons.mpr ⟨hhead, ih (h.tail hgoesOn)⟩

/-- **The size of blocks cannot be observed.** Take a run of any machine whose block was translated
from guest memory as it is, and in which the guest bytes of the block stay. A machine in the same
state, with blocks of one instruction and an empty cache, needs as many runs as the run executes
instructions; all but the last end with a branch, the last one ends like the run and leaves the same
guest processor, guest memory and clock count, and together they do the same to guest memory.

So take a program that stops under one limit for the size of blocks. If it never changes code that
has been compiled, under this limit and under another one, and can be compiled under the other one,
then it stops there too, with the same result and having done the same to guest memory. -/
theorem blockSize_unobservable (hsound : setup.env.Sound) :
    (∀ (vm : VirtualMachine σ) (block : CompiledBlock),
      vm.compile setup vm.cpu.nextAddress = .ok block →
      (∀ b, vm.cache.find? vm.cpu.nextAddress = some b → b = block) →
      vm.Stays setup block block.range vm.memory.window →
      ∃ init last,
        vm.forget.reports (setup.withLimit 1) (vm.instructionsRun setup) = init ++ [last] ∧
        (∀ r ∈ init, r.outcome = .ok .branch) ∧
        (∃ reason, last.outcome = .ok reason) ∧
        last.result = (vm.report setup).result ∧
        (init ++ [last]).flatMap (·.events) = (vm.report setup).events) ∧
    ∀ (vm : VirtualMachine σ) (m n limit : Nat) (last : Report σ),
      Stops (vm.forget.reportsUntilStop (setup.withLimit m) limit) last →
      vm.forget.KeepsCode (setup.withLimit m) limit [] →
      (∀ k, vm.forget.KeepsCode (setup.withLimit n) k []) →
      (∀ k, ∀ r ∈ vm.forget.reportsUntilStop (setup.withLimit n) k,
        ∀ e, r.outcome ≠ .error (.compile e)) →
      ∃ limit' last',
        Stops (vm.forget.reportsUntilStop (setup.withLimit n) limit') last' ∧
        last'.result = last.result ∧
        (vm.forget.reportsUntilStop (setup.withLimit n) limit').flatMap (·.events) =
          (vm.forget.reportsUntilStop (setup.withLimit m) limit).flatMap (·.events) := by
  refine ⟨fun vm block hcompile hcached hstays => ?_,
    fun vm m n limit last hstops hkeeps hkeeps' hcompiles => ?_⟩
  · obtain ⟨vm', hblock⟩ := blockAt_of_compile hcompile hcached
    obtain ⟨ending, -, hbelongs⟩ := belongsTo_of_compile hcompile
    obtain ⟨hreport, hevents⟩ := report_of_belongsTo hsound hblock hbelongs
    obtain ⟨init, last, hreports, hinit, hshows, hflat, -⟩ :=
      leadsTo_of_stays hsound hbelongs hstays true
    rw [reportsWith_true] at hreports
    exact ⟨init, last, hreports, hinit, ⟨_, hshows.outcome⟩, hshows.result_eq hreport,
      hflat.trans hevents.symm⟩
  · have hm : (setup.withLimit m).env.Sound := hsound
    have hn : (setup.withLimit n).env.Sound := hsound
    obtain ⟨count, hflat, ⟨-, hgoesOn, -⟩ | ⟨r, r', hr, hr', hresult⟩⟩ := singles_of_reports hm
      (known_forget _ [] vm) hkeeps fun r hr e => outcome_of_stops hstops r hr _
    · exact absurd hgoesOn hstops.not_goesOn
    obtain rfl := hstops.eq_last hr
    -- the single runs stop after `count` of them, so `count` runs under the other limit suffice
    obtain ⟨count', hflat', ⟨hle, -, hgoesOn⟩ | ⟨q, q', hq, hq', hresult'⟩⟩ := singles_of_reports hn
      (known_forget _ [] vm) (hkeeps' count) (hcompiles count)
    · -- one of the single runs stops, and they all are among those that go on
      rw [length_reportsWith] at hle
      have hfirst := reportsWith_le (setup.withLimit 1) false hle vm.forget
      exact absurd (fun r hr => hgoesOn r (hfirst.subset hr)) hr'.not_goesOn
    · -- both limits are compared with the same single runs
      have hsame := reportsWith_eq_of_stops hr' hq'
      have hlast : r' = q' := (hsame ▸ hr').eq_last hq'
      refine ⟨count, q, hq, ?_, ?_⟩
      · rw [hresult', ← hlast, ← hresult]
      · exact hflat'.trans ((congrArg _ hsame.symm).trans hflat.symm)

end VirtualMachine

/-! ### Blocks that leave guest memory alone -/

/-- **A run that leaves guest memory alone**, of a block that is not cached: the block is compiled
and kept, whatever guest code is considered stays, and the run interprets the code that was read. -/
theorem VirtualMachine.run_of_quiet {vm : VirtualMachine σ} {listing : List Placed}
    {ending : Ending} {k : Nat} (hsound : setup.env.Sound)
    (hcache : vm.cache.find? vm.cpu.nextAddress = none)
    (hscan : Codegen.scan setup.config vm.memory.window.image vm.cpu.nextAddress =
      ⟨listing, .ok ending⟩)
    (hquiet : ((Codegen.trackedBlock setup.env.layout Codegen.HostFlags.after listing
        ending).path setup.env setup.interface 0
          (vm.cpu.enter setup.env vm.contextCycles vm.memory)).visits.map (·.state.memory) =
      List.replicate k vm.memory) :
    ∃ block, vm.compile setup vm.cpu.nextAddress = .ok block ∧
      vm.blockAt setup vm.cpu.nextAddress =
        .ok (block, { vm with cache := vm.cache.insert vm.cpu.nextAddress block }) ∧
      (∀ range, vm.Stays setup block range vm.memory.window) ∧
      vm.run setup =
        VirtualMachine.after { vm with cache := vm.cache.insert vm.cpu.nextAddress block }
          (runBlock setup.interface (BitVec.ofNat 16 ending.cursor) listing vm.entry) := by
  have houtcome : (Codegen.scan setup.config vm.memory.window.image vm.cpu.nextAddress).outcome =
      .ok ending := by rw [hscan]
  obtain ⟨block, hcompile, htranslates⟩ :=
    Codegen.compile_of_scan setup.env.layout (Nat.le_refl _) houtcome
  rw [hscan] at htranslates
  have hbelongs : block.BelongsTo setup.env.layout vm.memory.window.image vm.cpu.nextAddress
      listing ending := ⟨Codegen.reads_of_scan_eq hscan, htranslates⟩
  have hblock : vm.blockAt setup vm.cpu.nextAddress =
      .ok (block, { vm with cache := vm.cache.insert vm.cpu.nextAddress block }) := by
    have hcompile' : vm.compile setup vm.cpu.nextAddress = .ok block := hcompile
    rw [blockAt, hcache, hcompile']
  have hvisits := Codegen.visits_of_reads hsound Codegen.Tracking.cautious_after hbelongs.reads
    hbelongs.code vm
  refine ⟨block, hcompile, hblock, fun range v hv a _ => ?_, (run_of_belongsTo hsound hblock
    hbelongs).1⟩
  rw [hvisits] at hv
  have hmemory := List.mem_map_of_mem (f := (·.state.memory)) hv
  rw [hquiet] at hmemory
  rw [List.eq_of_mem_replicate hmemory]

/-! ### A machine that stops -/

namespace Demo

/-- A machine about to do nothing and then stop. -/
def stopping : VirtualMachine Messages := ⟨.initial, memory [0x00, 0x10, 0x00], 0, .empty⟩

/-- The guest processor of the machine when it has done nothing and is about to stop. -/
def halfwayCpu : Cpu := { Cpu.initial with pc := 1, cycles := 4 }

/-- The machine between its instructions, when the first one has been a block. -/
def halfway (first : CompiledBlock) : VirtualMachine Messages :=
  { stopping with cpu := halfwayCpu, cache := stopping.cache.insert 0 first }

/-- The two instructions of the machine: one that does nothing, and one that stops. -/
theorem fetch_stopping : stopping.memory.window.image.fetch 0 = .ok (⟨.nop, 1⟩, 1) ∧
    stopping.memory.window.image.fetch 1 = .ok (⟨.stop, 2⟩, 3) := ⟨rfl, rfl⟩

/-- With room for both instructions the machine reads them as one block. -/
theorem scan_stopping (n : Nat) :
    Codegen.scan (setupWith (n + 2)).config stopping.memory.window.image 0 =
      ⟨[⟨0, ⟨.nop, 1⟩⟩, ⟨1, ⟨.stop, 2⟩⟩], .ok ⟨3, false⟩⟩ := by
  have hscan := Image.scan_succ fetch_stopping.1 rfl rfl n
  rw [Image.scan_ends fetch_stopping.2 rfl rfl] at hscan
  exact hscan

/-- With room for one instruction they are two blocks. -/
theorem scan_stopping_one :
    Codegen.scan (setupWith 1).config stopping.memory.window.image 0 =
        ⟨[⟨0, ⟨.nop, 1⟩⟩], .ok ⟨1, true⟩⟩ ∧
      Codegen.scan (setupWith 1).config stopping.memory.window.image 1 =
        ⟨[⟨1, ⟨.stop, 2⟩⟩], .ok ⟨3, false⟩⟩ :=
  ⟨Image.scan_zero fetch_stopping.1 rfl rfl, Image.scan_ends fetch_stopping.2 rfl rfl 0⟩

/-- The host code of the block of both instructions **leaves guest memory** as it is, and so does
that of either one: their paths are evaluated. -/
theorem memory_stopping :
    ((Codegen.trackedBlock hostEnvironment.layout Codegen.HostFlags.after
        [⟨0, ⟨.nop, 1⟩⟩, ⟨1, ⟨.stop, 2⟩⟩] ⟨3, false⟩).path hostEnvironment interface 0
          (stopping.cpu.enter hostEnvironment 0 stopping.memory)).visits.map (·.state.memory) =
      List.replicate 5 stopping.memory ∧
    ((Codegen.trackedBlock hostEnvironment.layout Codegen.HostFlags.after
        [⟨0, ⟨.nop, 1⟩⟩] ⟨1, true⟩).path hostEnvironment interface 0
          (stopping.cpu.enter hostEnvironment 0 stopping.memory)).visits.map (·.state.memory) =
      List.replicate 4 stopping.memory ∧
    ((Codegen.trackedBlock hostEnvironment.layout Codegen.HostFlags.after
        [⟨1, ⟨.stop, 2⟩⟩] ⟨3, false⟩).path hostEnvironment interface 0
          (halfwayCpu.enter hostEnvironment 0 stopping.memory)).visits.map (·.state.memory) =
      List.replicate 4 stopping.memory :=
  ⟨rfl, rfl, rfl⟩

/-- With room for both instructions the first run stops, and the code of its block stays, since
nothing is written. -/
theorem run_stopping (n : Nat) : ∃ block,
    stopping.compile (setupWith (n + 2)) 0 = .ok block ∧
    (∃ vm', stopping.blockAt (setupWith (n + 2)) 0 = .ok (block, vm')) ∧
    (∀ range, stopping.Stays (setupWith (n + 2)) block range stopping.memory.window) ∧
    (stopping.run (setupWith (n + 2))).1 = .ok .stop := by
  obtain ⟨block, hcompile, hblock, hstays, hrun⟩ :=
    @VirtualMachine.run_of_quiet _ (setupWith (n + 2)) stopping _ _ _ hostEnvironment_sound rfl
      (scan_stopping n) memory_stopping.1
  exact ⟨block, hcompile, ⟨_, hblock⟩, hstays, congrArg Prod.fst hrun⟩

/-- Its code is kept, and it stops at the first run, so that there is nothing to keep afterwards. -/
theorem keepsCode_stopping (n runs : Nat) : stopping.KeepsCode (setupWith (n + 2)) runs [] := by
  obtain ⟨block, -, ⟨vm', hblock⟩, hstays, houtcome⟩ := run_stopping n
  cases runs with
  | zero => trivial
  | succ runs =>
    rw [VirtualMachine.KeepsCode, show stopping.cpu.nextAddress = 0 from rfl, hblock]
    exact ⟨fun c hc => List.mem_singleton.mp hc ▸ hstays _, fun hne => absurd houtcome hne⟩

/-- With room for both instructions there is one report. -/
theorem reportsUntilStop_stopping (n limit : Nat) :
    stopping.reportsUntilStop (setupWith (n + 2)) (limit + 1) =
      [stopping.report (setupWith (n + 2))] := by
  obtain ⟨_, -, -, -, houtcome⟩ := run_stopping n
  exact VirtualMachine.reportsUntilStop_of_stop houtcome limit

/-- With room for one instruction the **first run** ends with a branch to the second one, and leaves
the block of the first in the cache. -/
theorem run_stopping_one : ∃ block left,
    stopping.blockAt (setupWith 1) 0 = .ok (block, left) ∧
    (∀ range, stopping.Stays (setupWith 1) block range stopping.memory.window) ∧
    stopping.run (setupWith 1) = (.ok .branch, halfway block) := by
  obtain ⟨block, -, hblock, hstays, hrun⟩ :=
    @VirtualMachine.run_of_quiet _ (setupWith 1) stopping _ _ _ hostEnvironment_sound rfl
      scan_stopping_one.1 memory_stopping.2.1
  exact ⟨block, _, hblock, hstays, hrun⟩

/-- The **second run** stops, at the other instruction, which has a block of its own. -/
theorem run_halfway (first : CompiledBlock) : ∃ block left,
    (halfway first).blockAt (setupWith 1) 1 = .ok (block, left) ∧
    (∀ range, (halfway first).Stays (setupWith 1) block range stopping.memory.window) ∧
    ((halfway first).run (setupWith 1)).1 = .ok .stop := by
  have hcache : (halfway first).cache.find? 1 = none := Cache.find?_insert_of_ne (by decide) first
  obtain ⟨block, -, hblock, hstays, hrun⟩ :=
    @VirtualMachine.run_of_quiet _ (setupWith 1) (halfway first) _ _ _ hostEnvironment_sound
      hcache scan_stopping_one.2 memory_stopping.2.2
  exact ⟨block, _, hblock, hstays, congrArg Prod.fst hrun⟩

/-- The code of both blocks is kept: neither of them writes to guest memory. -/
theorem keepsCode_stopping_one (runs : Nat) : stopping.KeepsCode (setupWith 1) runs [] := by
  obtain ⟨first, _, hfirst, hstays, hrun⟩ := run_stopping_one
  obtain ⟨second, _, hsecond, hstays', hstop⟩ := run_halfway first
  cases runs with
  | zero => trivial
  | succ runs =>
    rw [VirtualMachine.KeepsCode, show stopping.cpu.nextAddress = 0 from rfl, hfirst, hrun]
    refine ⟨fun c hc => List.mem_singleton.mp hc ▸ hstays _, fun _ => ?_⟩
    cases runs with
    | zero => trivial
    | succ runs =>
      rw [VirtualMachine.KeepsCode, show (halfway first).cpu.nextAddress = 1 from rfl, hsecond]
      refine ⟨fun c hc => ?_, fun hne => absurd hstop hne⟩
      -- the window is still the one that the first block was compiled from
      rcases List.mem_cons.mp hc with rfl | hc
      · exact hstays' _
      · exact List.mem_singleton.mp hc ▸ hstays' _

/-- Neither run fails, and there is none after the second. -/
theorem outcome_stopping_one (limit : Nat) :
    ∀ r ∈ stopping.reportsUntilStop (setupWith 1) limit, ∃ reason, r.outcome = .ok reason := by
  obtain ⟨first, _, -, -, hrun⟩ := run_stopping_one
  obtain ⟨_, _, -, -, hstop⟩ := run_halfway first
  have hbranch : (stopping.run (setupWith 1)).1 = .ok .branch := congrArg Prod.fst hrun
  cases limit with
  | zero => exact fun r hr => absurd hr List.not_mem_nil
  | succ limit =>
    rw [VirtualMachine.reportsUntilStop_of_ok hbranch (by decide), hrun]
    refine List.forall_mem_cons.mpr ⟨⟨_, hbranch⟩, ?_⟩
    cases limit with
    | zero => exact fun r hr => absurd hr List.not_mem_nil
    | succ limit =>
      rw [VirtualMachine.reportsUntilStop_of_stop hstop]
      exact fun r hr => List.mem_singleton.mp hr ▸ ⟨_, hstop⟩

end Demo

/-- A machine that does nothing and then stops. With room for both instructions this is one block,
and with room for one it is two: the first run of the latter ends with a branch, and the second one
has the result of the single run of the former. -/
theorem VirtualMachine.blockSize_unobservable_stopping :
    (∃ init last,
      Demo.stopping.reports (Demo.setupWith 1)
        (Demo.stopping.instructionsRun (Demo.setupWith 64)) = init ++ [last] ∧
      (∀ r ∈ init, r.outcome = .ok .branch) ∧
      last.result = (Demo.stopping.report (Demo.setupWith 64)).result) ∧
    ∃ limit last, Stops (Demo.stopping.reportsUntilStop (Demo.setupWith 1) limit) last ∧
      last.result = (Demo.stopping.report (Demo.setupWith 64)).result := by
  obtain ⟨block, hcompile, -, hstays, houtcome⟩ := Demo.run_stopping 62
  constructor
  · obtain ⟨init, last, hreports, hinit, -, hresult, -⟩ :=
      (@blockSize_unobservable _ (Demo.setupWith 64) Demo.hostEnvironment_sound).1
        Demo.stopping block hcompile nofun (hstays _)
    exact ⟨init, last, hreports, hinit, hresult⟩
  · obtain ⟨limit, last, hstops, hresult, -⟩ :=
      (@blockSize_unobservable _ (Demo.setupWith 64) Demo.hostEnvironment_sound).2
        Demo.stopping 64 1 1
        (Demo.stopping.report (Demo.setupWith 64))
        ⟨[], Demo.reportsUntilStop_stopping 62 0, goesOn_nil, houtcome⟩
        (Demo.keepsCode_stopping 62 1) Demo.keepsCode_stopping_one fun k r hr e => by
          obtain ⟨reason, hreason⟩ := Demo.outcome_stopping_one k r hr
          rw [hreason]
          exact nofun
    exact ⟨limit, last, hstops, hresult⟩

end Dynarec
