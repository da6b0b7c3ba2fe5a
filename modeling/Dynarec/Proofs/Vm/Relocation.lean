import Mathlib.Data.List.Forall2
import Dynarec.Proofs.Vm.History

/-!
# Relocation

The host addresses of the window and of the execution context are built into generated code, and
how its instructions are encoded depends on them. The guest cannot tell: under two environments that
keep what a host promises, wherever their windows and contexts lie, compiling reports the same
(`map_reported_compile`), the blocks do the same when they are executed, and machines with the same
history have the same outcomes but for the host code in them (`relocation_unobservable`).

Two blocks **relocate** each other if they are the code of the same guest block for two layouts
(`CompiledBlock.Relocates`), and two machines are **relocated** if they agree on all that the guest
sees and hold blocks that relocate each other (`VirtualMachine.Relocated`). Every operation keeps
this (`Workbench.Relocated.next`).
-/

namespace Dynarec

open Bridge (GuestMemory Layout)
open Codegen (CompileError CompiledBlock Config Tracking trackedBlock)
open Guest (Ending Image Placed Range)
open Machine (Environment)

variable {σ : Type}

/-! ### Blocks -/

namespace Codegen

variable {config : Config} {layout layout' : Layout} {image : Image} {start : Address}
  {block block' : CompiledBlock}

/-- What a compilation **reports** to the user: the guest range of the block and the number of its
instructions. -/
def CompiledBlock.reported (block : CompiledBlock) : Range × Nat :=
  (block.range, block.instructionCount)

/-- **Compiling reports the same** under every layout, whatever the image. -/
theorem map_reported_compile (config : Config) (layout layout' : Layout) (image : Image)
    (start : Address) :
    (compile config layout image start).map CompiledBlock.reported =
      (compile config layout' image start).map CompiledBlock.reported := by
  rw [compile, compile]
  cases hscan : (scan config image start).outcome with
  | error e => rfl
  | ok ending =>
    have hlisting : (scan config image start).listing ≠ [] := (Image.reads_of_scan hscan).ne_nil
    dsimp only
    rw [assembleBlock_of_ne_nil layout start hlisting,
      assembleBlock_of_ne_nil layout' start hlisting]
    cases Range.mk? start (ending.cursor - start.toNat) with
    | error f => rfl
    | ok range => rfl

/-- Whether two compiled blocks **relocate** each other: they are the same guest block, compiled for
two layouts. -/
structure CompiledBlock.Relocates (layout layout' : Layout) (block block' : CompiledBlock) :
    Prop where
  reported : block.reported = block'.reported
  common : ∃ (image : Image) (cursor : Nat) (listing : List Placed) (ending : Ending),
    image.Reads cursor listing ending ∧
      block.program.code = (trackedBlock layout HostFlags.after listing ending).bytes ∧
      block'.program.code = (trackedBlock layout' HostFlags.after listing ending).bytes

/-- Compiling the same guest code for two layouts yields blocks that relocate each other. -/
theorem relocates_of_compile (h : compile config layout image start = .ok block)
    (h' : compile config layout' image start = .ok block') :
    block.Relocates layout layout' block' := by
  have hreported := map_reported_compile config layout layout' image start
  rw [h, h'] at hreported
  obtain ⟨listing, ending, hscan, hreads, hcode⟩ := reads_of_compile h
  obtain ⟨listing', ending', hscan', -, hcode'⟩ := reads_of_compile h'
  obtain ⟨rfl, hending⟩ := Guest.Scan.mk.inj (hscan.symm.trans hscan')
  obtain rfl : ending = ending' := Except.ok.inj hending
  exact ⟨Except.ok.inj hreported, image, start.toNat, listing, ending, hreads, hcode, hcode'⟩

/-- Compiling **fails alike** under two layouts, or succeeds under both. -/
theorem compile_cases (config : Config) (layout layout' : Layout) (image : Image)
    (start : Address) :
    (∃ e, compile config layout image start = .error e ∧
        compile config layout' image start = .error e) ∨
      ∃ block block', compile config layout image start = .ok block ∧
        compile config layout' image start = .ok block' ∧
        block.Relocates layout layout' block' := by
  have hreported := map_reported_compile config layout layout' image start
  cases h : compile config layout image start with
  | error e =>
    cases h' : compile config layout' image start with
    | error e' =>
      rw [h, h'] at hreported
      exact .inl ⟨e, rfl, congrArg Except.error (Except.error.inj hreported).symm⟩
    | ok block' =>
      rw [h, h'] at hreported
      cases hreported
  | ok block =>
    cases h' : compile config layout' image start with
    | error e' =>
      rw [h, h'] at hreported
      cases hreported
    | ok block' => exact .inr ⟨block, block', rfl, rfl, relocates_of_compile h h'⟩

end Codegen

/-- The same machine on **another host**. -/
def Setup.withEnvironment (setup : Setup σ) (env : Environment) : Setup σ :=
  ⟨env, setup.interface, setup.config⟩

/-- **Executing** blocks that relocate each other does the same. -/
theorem Codegen.CompiledBlock.Relocates.execute_eq {setup : Setup σ} {env : Environment}
    (hsound : setup.env.Sound) (hsound' : env.Sound) {block block' : CompiledBlock}
    (h : block.Relocates setup.env.layout env.layout block') (vm : VirtualMachine σ) :
    vm.execute setup block = vm.execute (setup.withEnvironment env) block' ∧
      vm.executeEvents setup block = vm.executeEvents (setup.withEnvironment env) block' := by
  obtain ⟨-, image, cursor, listing, ending, hreads, hcode, hcode'⟩ := h
  have hcautious : Tracking.Cautious HostFlags.after := Tracking.cautious_after
  have hsetup : (setup.withEnvironment env).env.Sound := hsound'
  -- both do what the interpreter does from the same state
  have hexecute := execute_of_reads hsound hcautious hreads hcode vm
  have hexecute' := execute_of_reads hsetup hcautious hreads hcode' vm
  have hevents := executeEvents_of_reads hsound hcautious hreads hcode vm
  have hevents' := executeEvents_of_reads hsetup hcautious hreads hcode' vm
  exact ⟨hexecute.trans hexecute'.symm, hevents.trans hevents'.symm⟩

/-! ### Caches -/

/-- Two entries of a cache: blocks under the same address that relocate each other. -/
def Cache.EntryRelocates (layout layout' : Layout) (entry entry' : Address × CompiledBlock) :
    Prop :=
  entry.1 = entry'.1 ∧ entry.2.Relocates layout layout' entry'.2

/-- Whether the blocks of two caches relocate each other, **one by one**. -/
def Cache.Relocated (layout layout' : Layout) (c c' : Cache) : Prop :=
  List.Forall₂ (Cache.EntryRelocates layout layout') c.blocks c'.blocks

namespace Cache.Relocated

variable {layout layout' : Layout} {c c' : Cache}

/-- Blocks are **found** under the same addresses. -/
theorem find?_cases (h : c.Relocated layout layout' c') (a : Address) :
    (c.find? a = none ∧ c'.find? a = none) ∨
      ∃ block block', c.find? a = some block ∧ c'.find? a = some block' ∧
        block.Relocates layout layout' block' := by
  obtain ⟨blocks⟩ := c
  obtain ⟨blocks'⟩ := c'
  rw [Cache.find?, Cache.find?]
  replace h : List.Forall₂ (EntryRelocates layout layout') blocks blocks' := h
  induction h with
  | nil => exact .inl ⟨rfl, rfl⟩
  | @cons entry entry' _ _ hentry _ ih =>
    obtain ⟨b, block⟩ := entry
    obtain ⟨b', block'⟩ := entry'
    obtain ⟨rfl, hblock⟩ : b = b' ∧ block.Relocates layout layout' block' := hentry
    rw [List.lookup_cons, List.lookup_cons]
    cases a == b with
    | true => exact .inr ⟨block, block', rfl, rfl, hblock⟩
    | false => exact ih

/-- Blocks under the same address have the same **range**. -/
theorem range_eq {entry entry' : Address × CompiledBlock}
    (h : EntryRelocates layout layout' entry entry') : entry.2.range = entry'.2.range :=
  congrArg Prod.fst h.2.reported

theorem invalidate (h : c.Relocated layout layout' c') (r : Range) :
    (c.invalidate r).Relocated layout layout' (c'.invalidate r) := by
  refine List.rel_filter (fun entry entry' hentry => ?_) h
  change (!entry.2.range.overlaps r) = true ↔ (!entry'.2.range.overlaps r) = true
  rw [range_eq hentry]

theorem countOverlapping (h : c.Relocated layout layout' c') (r : Range) :
    c.countOverlapping r = c'.countOverlapping r := by
  rw [Cache.countOverlapping, Cache.countOverlapping, List.countP_eq_length_filter,
    List.countP_eq_length_filter]
  refine (List.rel_filter (fun entry entry' hentry => ?_) h).length_eq
  change entry.2.range.overlaps r = true ↔ entry'.2.range.overlaps r = true
  rw [range_eq hentry]

end Cache.Relocated

/-! ### Machines -/

/-- Whether two machines are **relocated**: the guest sees the same, and their cached blocks
relocate each other. -/
structure VirtualMachine.Relocated (layout layout' : Layout) (vm vm' : VirtualMachine σ) :
    Prop where
  cpu : vm.cpu = vm'.cpu
  memory : vm.memory = vm'.memory
  contextCycles : vm.contextCycles = vm'.contextCycles
  cache : vm.cache.Relocated layout layout' vm'.cache

namespace VirtualMachine.Relocated

variable {setup : Setup σ} {env : Environment} {layout layout' : Layout}
  {vm vm' : VirtualMachine σ} {block block' : CompiledBlock}

/-- Both machines have a block at a guest address, or fail to **compile** one alike. -/
theorem blockAt (h : vm.Relocated setup.env.layout env.layout vm') (start : Address) :
    (∃ e, vm.blockAt setup start = .error e ∧
        vm'.blockAt (setup.withEnvironment env) start = .error e) ∨
      ∃ block block' left left', vm.blockAt setup start = .ok (block, left) ∧
        vm'.blockAt (setup.withEnvironment env) start = .ok (block', left') ∧
        block.Relocates setup.env.layout env.layout block' ∧
        left.Relocated setup.env.layout env.layout left' := by
  rw [VirtualMachine.blockAt, VirtualMachine.blockAt]
  rcases h.cache.find?_cases start with ⟨hnone, hnone'⟩ | ⟨block, block', hsome, hsome', hblock⟩
  · -- both compile from the same window
    have hcompile' : vm'.compile (setup.withEnvironment env) start =
        Codegen.compile setup.config env.layout vm.memory.window.image start := by
      rw [VirtualMachine.compile, ← h.memory]
      rfl
    rw [hnone, hnone', hcompile', VirtualMachine.compile]
    rcases Codegen.compile_cases setup.config setup.env.layout env.layout
      vm.memory.window.image start with ⟨e, he, he'⟩ | ⟨block, block', hb, hb', hblock⟩
    · rw [he, he']
      exact .inl ⟨e, rfl, rfl⟩
    · rw [hb, hb']
      refine .inr ⟨block, block', _, _, rfl, rfl, hblock, h.cpu, h.memory, h.contextCycles, ?_⟩
      exact .cons ⟨rfl, hblock⟩ h.cache
  · rw [hsome, hsome']
    exact .inr ⟨block, block', vm, vm', rfl, rfl, hblock, h⟩

variable (hsound : setup.env.Sound) (hsound' : env.Sound)

include hsound hsound'

/-- Executing blocks that relocate each other does the same on both machines. -/
theorem execute (h : vm.Relocated layout layout' vm')
    (hblock : block.Relocates setup.env.layout env.layout block') :
    (vm.execute setup block).1 = (vm'.execute (setup.withEnvironment env) block').1 ∧
      (vm.execute setup block).2.Relocated layout layout'
        (vm'.execute (setup.withEnvironment env) block').2 ∧
      vm.executeEvents setup block = vm'.executeEvents (setup.withEnvironment env) block' := by
  have hvm : vm = { vm' with cache := vm.cache } := by
    obtain ⟨cpu, memory, contextCycles, cache⟩ := vm
    obtain ⟨rfl, rfl, rfl, -⟩ := h
    rfl
  obtain ⟨hexecute, hevents⟩ := hblock.execute_eq hsound hsound' vm
  have hcached := execute_withCache (setup.withEnvironment env) vm' block' vm.cache
  rw [← hvm, ← hexecute] at hcached
  have hevents' : vm.executeEvents (setup.withEnvironment env) block' =
      vm'.executeEvents (setup.withEnvironment env) block' := by
    rw [hvm]
    rfl
  rw [hcached, hevents, hevents']
  refine ⟨rfl, ⟨rfl, rfl, rfl, ?_⟩, rfl⟩
  rw [cache_execute]
  exact h.cache

/-- **A run** does the same on both machines. -/
theorem run (h : vm.Relocated setup.env.layout env.layout vm') :
    (vm.run setup).1 = (vm'.run (setup.withEnvironment env)).1 ∧
      (vm.run setup).2.Relocated setup.env.layout env.layout
        (vm'.run (setup.withEnvironment env)).2 ∧
      vm.runEvents setup = vm'.runEvents (setup.withEnvironment env) := by
  rw [VirtualMachine.run, VirtualMachine.run, VirtualMachine.runEvents, VirtualMachine.runEvents,
    ← h.cpu]
  rcases h.blockAt vm.cpu.nextAddress with ⟨e, he, he'⟩ |
    ⟨block, block', left, left', hb, hb', hblock, hleft⟩
  · rw [he, he']
    exact ⟨rfl, h, rfl⟩
  · rw [hb, hb']
    exact hleft.execute hsound hsound' hblock

end VirtualMachine.Relocated

/-! ### Histories -/

/-- An answer without the **host code** of a block in it. -/
def Answer.codeless : Answer → Answer
  | .compiled (.ok block) => .compiled (.ok { block with program := .ofCode [] })
  | answer => answer

/-- An outcome without the host code of a block in it. -/
def Outcome.codeless (o : Outcome σ) : Outcome σ := { o with answer := o.answer.codeless }

namespace Workbench

variable {setup : Setup σ} {env : Environment} {w w' : Workbench σ}

/-- Whether two workbenches are **relocated**: their machines are, and the blocks that their users
hold relocate each other. -/
structure Relocated (layout layout' : Layout) (w w' : Workbench σ) : Prop where
  vm : w.vm.Relocated layout layout' w'.vm
  held : List.Forall₂ (CompiledBlock.Relocates layout layout') w.held w'.held

namespace Relocated

/-- Both users hold blocks of the same **numbers**. -/
theorem held_cases {layout layout' : Layout} (h : w.Relocated layout layout' w') (number : Nat) :
    (w.held[number]? = none ∧ w'.held[number]? = none) ∨
      ∃ block block', w.held[number]? = some block ∧ w'.held[number]? = some block' ∧
        block.Relocates layout layout' block' := by
  obtain ⟨vm, held⟩ := w
  obtain ⟨vm', held'⟩ := w'
  obtain ⟨-, hheld⟩ := h
  replace hheld : List.Forall₂ (CompiledBlock.Relocates layout layout') held held' := hheld
  induction hheld generalizing number with
  | nil => exact .inl ⟨rfl, rfl⟩
  | cons hblock _ ih =>
    cases number with
    | zero => exact .inr ⟨_, _, rfl, rfl, hblock⟩
    | succ number => exact ih number

/-- Two operations that answer the same but for code, lead to relocated workbenches and do the same
to guest memory have the same **outcome** but for code. -/
theorem codeless_outcome_eq {setup' : Setup σ} {layout layout' : Layout} {action : Action}
    (hanswer : (w.perform setup action).1.codeless = (w'.perform setup' action).1.codeless)
    (hnext : (w.next setup action).Relocated layout layout' (w'.next setup' action))
    (hevents : w.events setup action = w'.events setup' action) :
    (w.outcome setup action).codeless = (w'.outcome setup' action).codeless := by
  simp only [outcome, Outcome.codeless, hanswer, hnext.vm.cpu, hnext.vm.memory,
    hnext.vm.contextCycles, hevents]

/-- **One operation** does the same on both hosts. -/
theorem next (hsound : setup.env.Sound) (hsound' : env.Sound)
    (h : w.Relocated setup.env.layout env.layout w') (action : Action) :
    (w.outcome setup action).codeless =
        (w'.outcome (setup.withEnvironment env) action).codeless ∧
      (w.next setup action).Relocated setup.env.layout env.layout
        (w'.next (setup.withEnvironment env) action) := by
  suffices hsame : (w.perform setup action).1.codeless =
        (w'.perform (setup.withEnvironment env) action).1.codeless ∧
      (w.next setup action).Relocated setup.env.layout env.layout
        (w'.next (setup.withEnvironment env) action) ∧
      w.events setup action = w'.events (setup.withEnvironment env) action from
    ⟨codeless_outcome_eq hsame.1 hsame.2.1 hsame.2.2, hsame.2.1⟩
  cases action with
  | setCpu cpu =>
    exact ⟨rfl, ⟨⟨rfl, h.vm.memory, h.vm.contextCycles, h.vm.cache⟩, h.held⟩, rfl⟩
  | run =>
    obtain ⟨hanswer, hvm, hevents⟩ := h.vm.run hsound hsound'
    exact ⟨congrArg (Answer.codeless ∘ Answer.ran) hanswer, ⟨hvm, h.held⟩, hevents⟩
  | compile start =>
    -- the image that is compiled is the same on both machines
    have hcompile' : w'.vm.compile (setup.withEnvironment env) start =
        Codegen.compile setup.config env.layout w.vm.memory.window.image start := by
      rw [VirtualMachine.compile, ← h.vm.memory]
      rfl
    rw [Workbench.next, Workbench.next, perform, perform, hcompile', VirtualMachine.compile]
    rcases Codegen.compile_cases setup.config setup.env.layout env.layout
      w.vm.memory.window.image start with ⟨e, he, he'⟩ | ⟨block, block', hb, hb', hblock⟩
    · rw [he, he']
      refine ⟨rfl, ⟨h.vm, ?_⟩, rfl⟩
      exact List.rel_append h.held .nil
    · rw [hb, hb']
      have hrange : block.range = block'.range := congrArg Prod.fst hblock.reported
      have hcount : block.instructionCount = block'.instructionCount :=
        congrArg Prod.snd hblock.reported
      refine ⟨?_, ⟨h.vm, ?_⟩, rfl⟩
      · simp only [Answer.codeless, hrange, hcount]
      · exact List.rel_append h.held (.cons hblock .nil)
  | execute number =>
    rw [Workbench.next, Workbench.next, perform, perform, events, events]
    rcases h.held_cases number with ⟨hnone, hnone'⟩ | ⟨block, block', hsome, hsome', hblock⟩
    · rw [hnone, hnone']
      exact ⟨rfl, h, rfl⟩
    · rw [hsome, hsome']
      obtain ⟨hanswer, hvm, hevents⟩ := h.vm.execute hsound hsound' hblock
      exact ⟨congrArg (Answer.codeless ∘ Answer.ran) hanswer, ⟨hvm, h.held⟩, hevents⟩
  | load a data =>
    rw [Workbench.next, Workbench.next, perform, perform, VirtualMachine.load?,
      VirtualMachine.load?, ← h.vm.memory]
    cases w.vm.memory.window.load? a data with
    | none => exact ⟨rfl, h, rfl⟩
    | some window =>
      exact ⟨rfl, ⟨⟨h.vm.cpu, rfl, h.vm.contextCycles, h.vm.cache⟩, h.held⟩, rfl⟩
  | invalidate r =>
    refine ⟨?_, ⟨⟨h.vm.cpu, h.vm.memory, h.vm.contextCycles, h.vm.cache.invalidate r⟩, h.held⟩,
      rfl⟩
    exact congrArg (Answer.codeless ∘ Answer.dropped) (h.vm.cache.countOverlapping r)

/-- **A history** has the same outcomes on both hosts. -/
theorem outcomes (hsound : setup.env.Sound) (hsound' : env.Sound) (history : List Action)
    (h : w.Relocated setup.env.layout env.layout w') :
    (w.outcomes setup history).map Outcome.codeless =
      (w'.outcomes (setup.withEnvironment env) history).map Outcome.codeless := by
  induction history generalizing w w' with
  | nil => rfl
  | cons action history ih =>
    obtain ⟨houtcome, hnext⟩ := h.next hsound hsound' action
    rw [Workbench.outcomes, Workbench.outcomes, List.map_cons, List.map_cons, houtcome, ih hnext]

end Relocated

end Workbench

/-- **Relocation independence.** Take two hosts, each with a window aligned to its size, a context
apart from it, and an aligned stack, wherever these are.

* Compiling reports the same guest range and number of instructions, or the same error, whatever the
  image and the address.
* If a block compiles, it does the same on both hosts, whatever the machine that executes it: the
  same exit reason, guest processor, guest memory and clock count, and the same accesses to guest
  memory and calls of handlers.
* Machines that are used alike, in whatever way, have the same outcomes, but for the host code of
  the blocks that are compiled. -/
theorem relocation_unobservable {setup : Setup σ} {env : Environment} (hsound : setup.env.Sound)
    (hsound' : env.Sound) :
    (∀ image start,
      (Codegen.compile setup.config setup.env.layout image start).map CompiledBlock.reported =
        (Codegen.compile setup.config env.layout image start).map CompiledBlock.reported) ∧
    (∀ image start block block',
      Codegen.compile setup.config setup.env.layout image start = .ok block →
      Codegen.compile setup.config env.layout image start = .ok block' →
      ∀ vm : VirtualMachine σ,
        vm.execute setup block = vm.execute (setup.withEnvironment env) block' ∧
          vm.executeEvents setup block =
            vm.executeEvents (setup.withEnvironment env) block') ∧
    ∀ (memory : GuestMemory σ) (history : List Action),
      ((Workbench.ofMemory memory).outcomes setup history).map Outcome.codeless =
        ((Workbench.ofMemory memory).outcomes (setup.withEnvironment env) history).map
          Outcome.codeless := by
  refine ⟨fun image start => Codegen.map_reported_compile _ _ _ image start,
    fun image start block block' hcompile hcompile' vm => ?_, fun memory history => ?_⟩
  · exact (Codegen.relocates_of_compile hcompile hcompile').execute_eq hsound hsound' vm
  · have hfresh : (Workbench.ofMemory memory).Relocated setup.env.layout env.layout
        (Workbench.ofMemory memory) := ⟨⟨rfl, rfl, rfl, .nil⟩, .nil⟩
    exact hfresh.outcomes hsound hsound' history

/-- A host with its window close to the top of memory. A sign-extended field of 32 bits can hold its
address, but not that of the window of the command line. -/
def Demo.upperEnvironment : Environment :=
  { Demo.hostEnvironment with layout := ⟨0xFFFFFFFF80000000, 0xFFFFFFFF80020000⟩ }

theorem Demo.upperEnvironment_sound : Demo.upperEnvironment.Sound where
  windowAligned := by decide
  contextApart := by decide
  stackAligned := by decide

/-- `LD A, (HL)` and `HALT`. -/
def Demo.reading : Image := .ofList [0x7E, 0x76]

/-- The same block has less code where addresses are encoded in fewer bytes, but does the same. -/
theorem relocation_unobservable_upper :
    ∃ block block',
      Codegen.compile ⟨64, false⟩ Demo.hostEnvironment.layout Demo.reading 0 = .ok block ∧
      Codegen.compile ⟨64, false⟩ Demo.upperEnvironment.layout Demo.reading 0 = .ok block' ∧
      block.code.length = 88 ∧ block'.code.length = 82 ∧
      ∀ vm : VirtualMachine Demo.Messages, vm.execute (Demo.setupWith 64) block =
        vm.execute ((Demo.setupWith 64).withEnvironment Demo.upperEnvironment) block' := by
  have hlength : (Codegen.compile ⟨64, false⟩ Demo.hostEnvironment.layout Demo.reading 0).map
      (·.code.length) = .ok 88 := rfl
  have hlength' : (Codegen.compile ⟨64, false⟩ Demo.upperEnvironment.layout Demo.reading 0).map
      (·.code.length) = .ok 82 := rfl
  rcases Codegen.compile_cases ⟨64, false⟩ Demo.hostEnvironment.layout
    Demo.upperEnvironment.layout Demo.reading 0 with ⟨e, he, -⟩ | ⟨block, block', hb, hb', -⟩
  · rw [he] at hlength
    cases hlength
  rw [hb] at hlength
  rw [hb'] at hlength'
  refine ⟨block, block', hb, hb', Except.ok.inj hlength, Except.ok.inj hlength', fun vm => ?_⟩
  exact ((@relocation_unobservable _ (Demo.setupWith 64) _ Demo.hostEnvironment_sound
    Demo.upperEnvironment_sound).2.1 Demo.reading 0 block block' hb hb' vm).1

end Dynarec
