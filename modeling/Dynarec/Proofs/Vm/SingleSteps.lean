import Dynarec.Proofs.Vm.Cache
import Dynarec.Proofs.Vm.Reports

/-!
# Blocks of one instruction

A machine whose blocks hold one instruction each executes the guest code of a larger block one
instruction after another (`singles_of_reads`), provided that the code is still there when its turn
comes. The machine may keep the blocks that it compiles, or forget them after every run.
-/

namespace Dynarec

open Bridge (GuestMemory)
open Codegen (CompiledBlock Translates)
open Guest (Ending ExitReason Image Placed)
open Interpreter (blockDemands demandEvents executed runBlock steps)
open Machine (Event)

/-! ### Interpreter states between blocks -/

namespace Interpreter.State

variable {σ : Type}

/-- **Leaving** a block and entering the next one keeps the interpreter state: no guest register has
more bits than those that are stored and loaded again. -/
theorem ofCpu_toCpu (g : State σ) (pc : Address) :
    State.ofCpu (g.toCpu pc) g.contextCycles g.memory = g := by
  have hzero : g.f[7] = g.zero := by
    rw [f]
    cases g.zero <;> cases g.carry <;> rfl
  have hcarry : g.f[4] = g.carry := by
    rw [f]
    cases g.zero <;> cases g.carry <;> rfl
  simp [ofCpu, toCpu, hzero, hcarry]

theorem nextAddress_toCpu (g : State σ) (pc : Address) : (g.toCpu pc).nextAddress = pc := by
  simp [toCpu, Cpu.nextAddress]

end Interpreter.State

variable {σ : Type} {setup : Setup σ}

/-- A setup with another **limit** for the instructions of a block. -/
def Setup.withLimit (setup : Setup σ) (limit : Nat) : Setup σ :=
  { setup with config := { setup.config with maxBlockInstructions := limit } }

/-- Whether a report **shows** what the interpretation of a block leads to. -/
structure Report.Shows (r : Report σ) (out : Interpreter.State σ × ExitReason × Address) :
    Prop where
  outcome : r.outcome = .ok out.2.1
  cpu : r.cpu = out.1.toCpu out.2.2
  memory : r.memory = out.1.memory
  contextCycles : r.contextCycles = out.1.contextCycles

namespace VirtualMachine

/-! ### Run after run -/

/-- The machine for the next run, with the blocks compiled so far or without them. -/
def next (setup : Setup σ) (keep : Bool) (vm : VirtualMachine σ) : VirtualMachine σ :=
  bif keep then (vm.run setup).2 else (vm.run setup).2.forget

/-- The reports of run after run, with the blocks compiled so far **kept** or forgotten. -/
def reportsWith (setup : Setup σ) (keep : Bool) : (runs : Nat) → VirtualMachine σ → List (Report σ)
  | 0, _ => []
  | runs + 1, vm => vm.report setup :: reportsWith setup keep runs (vm.next setup keep)

/-- The machine after run after run. -/
def afterRuns (setup : Setup σ) (keep : Bool) : (runs : Nat) → VirtualMachine σ → VirtualMachine σ
  | 0, vm => vm
  | runs + 1, vm => afterRuns setup keep runs (vm.next setup keep)

theorem reportsWith_true (setup : Setup σ) (runs : Nat) (vm : VirtualMachine σ) :
    vm.reportsWith setup true runs = vm.reports setup runs := by
  induction runs generalizing vm with
  | zero => rfl
  | succ runs ih =>
    rw [reportsWith, reports, ih]
    rfl

/-- The reports of some runs and of others after them. -/
theorem reportsWith_add (setup : Setup σ) (keep : Bool) (m n : Nat) (vm : VirtualMachine σ) :
    vm.reportsWith setup keep (m + n) =
      vm.reportsWith setup keep m ++ (vm.afterRuns setup keep m).reportsWith setup keep n := by
  induction m generalizing vm with
  | zero => rw [Nat.zero_add]; rfl
  | succ m ih =>
    rw [Nat.succ_add, reportsWith, ih]
    rfl

theorem length_reportsWith (setup : Setup σ) (keep : Bool) (runs : Nat) (vm : VirtualMachine σ) :
    (vm.reportsWith setup keep runs).length = runs := by
  induction runs generalizing vm with
  | zero => rfl
  | succ runs ih => rw [reportsWith, List.length_cons, ih]

variable {vm vm' : VirtualMachine σ} {block : CompiledBlock}

/-- The report of a run shows what the guest code of its block leads to. -/
theorem report_of_belongsTo (hsound : setup.env.Sound)
    (hblock : vm.blockAt setup vm.cpu.nextAddress = .ok (block, vm')) {image : Image}
    {start : Address}
    {listing : List Placed} {ending : Ending}
    (h : block.BelongsTo setup.env.layout image start listing ending) :
    (vm.report setup).Shows
        (runBlock setup.interface (BitVec.ofNat 16 ending.cursor) listing vm.entry) ∧
      (vm.report setup).events = demandEvents (blockDemands setup.interface listing vm.entry) := by
  obtain ⟨hrun, hevents⟩ := run_of_belongsTo hsound hblock h
  rw [report, hrun]
  exact ⟨⟨rfl, rfl, rfl, rfl⟩, hevents⟩

/-! ### One instruction -/

section One

variable (hone : setup.config.maxBlockInstructions - 1 = 0) {instruction : Guest.Instruction}
  {next : Nat}
  (hfetch : vm.memory.window.image.fetch vm.cpu.nextAddress.toNat = .ok (instruction, next))
  (hhandled : instruction.operation.isHandled = true)
  (hcache : vm.cache.find? vm.cpu.nextAddress = none)

include hone hfetch hhandled hcache

/-- The block of **one instruction**: it is compiled, as none is cached at that address, and cached
from then on. -/
theorem blockAt_one :
    ∃ block ending, ending.cursor = next ∧
      vm.blockAt setup vm.cpu.nextAddress =
        .ok (block, { vm with cache := vm.cache.insert vm.cpu.nextAddress block }) ∧
      block.BelongsTo setup.env.layout vm.memory.window.image vm.cpu.nextAddress
        [⟨vm.cpu.nextAddress, instruction⟩] ending := by
  have hscan : ∃ ending, ending.cursor = next ∧
      Codegen.scan setup.config vm.memory.window.image vm.cpu.nextAddress =
        ⟨[⟨vm.cpu.nextAddress, instruction⟩], .ok ending⟩ := by
    rw [Codegen.scan, hone]
    cases hends : instruction.operation.endsBlock with
    | true =>
      refine ⟨⟨next, false⟩, rfl, ?_⟩
      rw [Image.scan_ends hfetch hhandled hends, BitVec.ofNat_toNat, BitVec.setWidth_eq]
    | false =>
      refine ⟨⟨next, true⟩, rfl, ?_⟩
      rw [Image.scan_zero hfetch hhandled hends, BitVec.ofNat_toNat, BitVec.setWidth_eq]
  obtain ⟨ending, hcursor, hscan⟩ := hscan
  have houtcome : (Codegen.scan setup.config vm.memory.window.image vm.cpu.nextAddress).outcome =
      .ok ending := by rw [hscan]
  obtain ⟨block, hcompile, htranslates⟩ :=
    Codegen.compile_of_scan setup.env.layout (Nat.le_refl _) houtcome
  rw [hscan] at htranslates
  refine ⟨block, ending, hcursor, ?_, Codegen.reads_of_scan_eq hscan, htranslates⟩
  rw [blockAt, hcache, compile, hcompile]

end One

/-! ### The instructions of a block, one after another -/

/-- The machine after a run that led out of its block, or through it. -/
theorem next_of_belongsTo (hsound : setup.env.Sound) (keep : Bool)
    (hblock : vm.blockAt setup vm.cpu.nextAddress = .ok (block, vm')) {image : Image}
    {start : Address}
    {listing : List Placed} {ending : Ending}
    (h : block.BelongsTo setup.env.layout image start listing ending)
    {out : Interpreter.State σ × ExitReason × Address}
    (hout : runBlock setup.interface (BitVec.ofNat 16 ending.cursor) listing vm.entry = out) :
    vm.next setup keep = ⟨out.1.toCpu out.2.2, out.1.memory, out.1.contextCycles,
      bif keep then vm'.cache else .empty⟩ := by
  obtain ⟨hrun, -⟩ := run_of_belongsTo hsound hblock h
  rw [next, hrun, hout]
  cases keep <;> rfl

/-- What is left of a block **is still there** whenever it is the turn of an instruction. -/
def StaysAsRead (setup : Setup σ) (image : Image) (lower upper : Nat) (listing : List Placed)
    (g : Interpreter.State σ) : Prop :=
  ∀ ps p qs g', listing = ps ++ p :: qs → steps setup.interface ps g = (g', none) →
    ∀ k, lower ≤ k → k < upper → g'.memory.window.image.byte k = image.byte k

/-- Guest code that stays as it was read does so after the first instruction. -/
theorem StaysAsRead.tail {image : Image} {lower lower' upper : Nat} {p : Placed} {ps : List Placed}
    {g g' : Interpreter.State σ} (h : StaysAsRead setup image lower upper (p :: ps) g)
    (hstep : Interpreter.step setup.interface p g = (g', none)) (hlower : lower ≤ lower') :
    StaysAsRead setup image lower' upper ps g' := by
  intro qs q rs g'' hlisting hsteps k hk
  exact h (p :: qs) q rs g'' (by rw [hlisting, List.cons_append])
    (by rw [Interpreter.steps_through hstep, hsteps]) k (Nat.le_trans hlower hk)

/-- Guest code that stays as it was read is so at the start. -/
theorem StaysAsRead.byte {image : Image} {lower upper : Nat} {p : Placed} {ps : List Placed}
    {g : Interpreter.State σ} (h : StaysAsRead setup image lower upper (p :: ps) g) (k : Nat)
    (hlower : lower ≤ k) (hupper : k < upper) : g.memory.window.image.byte k = image.byte k :=
  h [] p ps g rfl rfl k hlower hupper

/-- Whether run after run **leads to** an outcome: all runs but the last end with a branch, and the
last one shows the outcome. `es` is what they do to guest memory, all together. -/
def LeadsTo (setup : Setup σ) (keep : Bool) (vm : VirtualMachine σ) (runs : Nat)
    (out : Interpreter.State σ × ExitReason × Address) (es : List Event) : Prop :=
  ∃ init last, vm.reportsWith setup keep runs = init ++ [last] ∧
    (∀ r ∈ init, r.outcome = .ok .branch) ∧ last.Shows out ∧
    (init ++ [last]).flatMap (·.events) = es ∧
    (keep = false → vm.afterRuns setup keep runs =
      ⟨out.1.toCpu out.2.2, out.1.memory, out.1.contextCycles, .empty⟩)

/-- One run that shows what an instruction leads to. -/
theorem LeadsTo.one {keep : Bool} {out : Interpreter.State σ × ExitReason × Address}
    {es : List Event}
    (hshows : (vm.report setup).Shows out) (hevents : (vm.report setup).events = es)
    (hnext : keep = false →
      vm.next setup keep = ⟨out.1.toCpu out.2.2, out.1.memory, out.1.contextCycles, .empty⟩) :
    vm.LeadsTo setup keep 1 out es := by
  refine ⟨[], vm.report setup, rfl, fun r hr => absurd hr List.not_mem_nil, hshows, ?_, hnext⟩
  rw [List.nil_append, List.flatMap_singleton, hevents]

/-- A run that ends with a branch, and further ones after it. -/
theorem LeadsTo.cons {keep : Bool} {runs : Nat} {out : Interpreter.State σ × ExitReason × Address}
    {es fs : List Event} (houtcome : (vm.report setup).outcome = .ok .branch)
    (hevents : (vm.report setup).events = es)
    (h : (vm.next setup keep).LeadsTo setup keep runs out fs) :
    vm.LeadsTo setup keep (runs + 1) out (es ++ fs) := by
  obtain ⟨init, last, hreports, hinit, hshows, hflat, hafter⟩ := h
  refine ⟨vm.report setup :: init, last, ?_, ?_, hshows, ?_, hafter⟩
  · rw [reportsWith, hreports, List.cons_append]
  · exact List.forall_mem_cons.mpr ⟨houtcome, hinit⟩
  · rw [List.cons_append, List.flatMap_cons, hflat, hevents]

section First

variable (hsound : setup.env.Sound) (hone : setup.config.maxBlockInstructions - 1 = 0)
  {image : Image} (hsize : image.size = 0x10000) {cursor next upper : Nat}
  {instruction : Guest.Instruction} {ps : List Placed}
  (hfetch : image.fetch cursor = .ok (instruction, next))
  (hhandled : instruction.operation.isHandled = true) (hupper : next ≤ upper)
  (hcursor : vm.cpu.nextAddress.toNat = cursor)
  (hcache : vm.cache.find? vm.cpu.nextAddress = none)
  (hstays : StaysAsRead setup image cursor upper
    (⟨BitVec.ofNat 16 cursor, instruction⟩ :: ps) vm.entry)

include hsound hone hsize hfetch hhandled hupper hcursor hcache hstays

/-- The **first instruction** of a block, run on its own, as a block that is read from what guest
memory is by then. -/
theorem first_of_stays (keep : Bool) {out : Interpreter.State σ × ExitReason × Address}
    (hout : runBlock setup.interface (BitVec.ofNat 16 next)
      [⟨BitVec.ofNat 16 cursor, instruction⟩] vm.entry = out) :
    (vm.report setup).Shows out ∧
      (vm.report setup).events = demandEvents (Interpreter.stepDemands setup.interface
        ⟨BitVec.ofNat 16 cursor, instruction⟩ vm.entry) ∧
      ∃ block, vm.next setup keep = ⟨out.1.toCpu out.2.2, out.1.memory, out.1.contextCycles,
        bif keep then vm.cache.insert vm.cpu.nextAddress block else .empty⟩ := by
  have hfetch' : vm.memory.window.image.fetch vm.cpu.nextAddress.toNat =
    .ok (instruction, next) := by
    rw [hcursor]
    exact Image.fetch_congr hsize.symm hfetch fun k hk hk' => hstays.byte k hk (by omega)
  obtain ⟨block, ending, rfl, hblock, hbelongs⟩ := blockAt_one hone hfetch' hhandled hcache
  have haddress : vm.cpu.nextAddress = BitVec.ofNat 16 cursor := by
    rw [← hcursor, BitVec.ofNat_toNat, BitVec.setWidth_eq]
  obtain ⟨hshows, hevents⟩ := report_of_belongsTo hsound hblock hbelongs
  rw [haddress, hout] at hshows
  refine ⟨hshows, ?_, block, next_of_belongsTo hsound keep hblock hbelongs (haddress ▸ hout)⟩
  rw [hevents, haddress]
  congr 1
  exact Interpreter.blockDemands_one _ _

/-- A block that ends with its **first instruction**, so that there is one run to make. -/
theorem leadsTo_of_first (hps : ps = []) (keep : Bool) :
    vm.LeadsTo setup keep
      (executed setup.interface [⟨BitVec.ofNat 16 cursor, instruction⟩] vm.entry)
      (runBlock setup.interface (BitVec.ofNat 16 next) [⟨BitVec.ofNat 16 cursor, instruction⟩]
        vm.entry)
      (demandEvents (blockDemands setup.interface [⟨BitVec.ofNat 16 cursor, instruction⟩]
        vm.entry)) := by
  subst hps
  obtain ⟨hshows, hevents, _, hnext⟩ := first_of_stays hsound hone hsize hfetch hhandled hupper
    hcursor hcache hstays keep rfl
  rw [Interpreter.executed_one, Interpreter.blockDemands_one]
  exact .one hshows hevents fun hkeep => by rw [hnext, hkeep]; rfl

end First

/-- The machine after an instruction that leads to the next one: it is in the state of the
interpreter there, and no block that it has is in the way. -/
theorem entry_of_next {keep : Bool} {g : Interpreter.State σ} {next : Nat}
    (hnext : vm.next setup keep = ⟨g.toCpu (BitVec.ofNat 16 next), g.memory, g.contextCycles,
      bif keep then vm.cache.insert vm.cpu.nextAddress block else .empty⟩)
    (hlt : next < 0x10000) (hpassed : vm.cpu.nextAddress.toNat < next)
    (hcache : ∀ a : Address, next ≤ a.toNat → vm.cache.find? a = none) :
    (vm.next setup keep).entry = g ∧ (vm.next setup keep).cpu.nextAddress.toNat = next ∧
      ∀ a : Address, next ≤ a.toNat → (vm.next setup keep).cache.find? a = none := by
  rw [hnext]
  refine ⟨Interpreter.State.ofCpu_toCpu g _, ?_, fun a ha => ?_⟩
  · change (g.toCpu (BitVec.ofNat 16 next)).nextAddress.toNat = next
    rw [Interpreter.State.nextAddress_toCpu, BitVec.toNat_ofNat]
    exact Nat.mod_eq_of_lt hlt
  · have hne : a ≠ vm.cpu.nextAddress := by
      rintro rfl
      omega
    cases keep with
    | false => rfl
    | true => exact (Cache.find?_insert_of_ne hne block).trans (hcache a ha)

/-- **A block, one instruction after another.** A machine with blocks of one instruction does what
the guest code of a larger block does, in as many runs as instructions are executed, provided that
it has no block in the way and that the guest code stays as it was read. -/
theorem singles_of_reads (hsound : setup.env.Sound)
    (hone : setup.config.maxBlockInstructions - 1 = 0) (keep : Bool) {image : Image}
    (hsize : image.size = 0x10000) {cursor : Nat} {listing : List Placed} {ending : Ending}
    (hreads : image.Reads cursor listing ending) {vm : VirtualMachine σ}
    (hcursor : vm.cpu.nextAddress.toNat = cursor)
    (hcache : ∀ a, cursor ≤ a.toNat → vm.cache.find? a = none)
    (hstays : StaysAsRead setup image cursor ending.cursor listing vm.entry) :
    vm.LeadsTo setup keep (executed setup.interface listing vm.entry)
      (runBlock setup.interface (BitVec.ofNat 16 ending.cursor) listing vm.entry)
      (demandEvents (blockDemands setup.interface listing vm.entry)) := by
  induction hreads generalizing vm with
  | @ends cursor next instruction hfetch hhandled hends =>
    exact leadsTo_of_first hsound hone hsize hfetch hhandled (Nat.le_refl _) hcursor
      (hcache _ (Nat.le_of_eq hcursor.symm)) hstays rfl keep
  | @fallsThrough cursor next instruction hfetch hhandled hends =>
    exact leadsTo_of_first hsound hone hsize hfetch hhandled (Nat.le_refl _) hcursor
      (hcache _ (Nat.le_of_eq hcursor.symm)) hstays rfl keep
  | @more cursor next instruction ps ending hfetch hhandled hends hlt hrest ih =>
    have hupper : next ≤ ending.cursor := Nat.le_of_lt hrest.cursor_lt.1
    have hnone := hcache _ (Nat.le_of_eq hcursor.symm)
    rcases hstep :
      Interpreter.step setup.interface ⟨BitVec.ofNat 16 cursor, instruction⟩ vm.entry with
      ⟨g, _ | exit⟩
    · -- the instruction leads to the next one, where the machine is as the interpreter is
      obtain ⟨hshows, hevents, block, hnext⟩ :=
        first_of_stays hsound hone hsize hfetch hhandled hupper
        hcursor hnone hstays keep (Interpreter.runBlock_through hstep _)
      rw [Interpreter.executed_through hstep, Interpreter.runBlock_through hstep,
        Interpreter.blockDemands_through hstep, Interpreter.demandEvents_append]
      have hpassed := (Image.fetch_ok hfetch).2.1
      obtain ⟨hentry, hpc, hcache'⟩ := entry_of_next hnext (by omega) (by omega)
        fun a ha => hcache a (by omega)
      have hih := ih hpc hcache' (by
        rw [hentry]
        exact hstays.tail hstep (Nat.le_of_lt hpassed))
      rw [hentry] at hih
      exact .cons hshows.outcome hevents hih
    · -- the instruction leaves the block, which ends with it
      obtain ⟨hshows, hevents, _, hnext⟩ := first_of_stays hsound hone hsize hfetch hhandled hupper
        hcursor hnone hstays keep (Interpreter.runBlock_left hstep _)
      rw [Interpreter.executed_left hstep, Interpreter.runBlock_left hstep,
        Interpreter.blockDemands_left hstep]
      exact .one hshows hevents fun hkeep => by rw [hnext, hkeep]; rfl

end VirtualMachine

end Dynarec
