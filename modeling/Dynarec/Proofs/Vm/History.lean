import Mathlib.Data.List.Induction
import Dynarec.Proofs.Vm.Cache
import Dynarec.Proofs.Vm.Reports

/-!
# Histories

A user of a virtual machine sets its processor, lets it run, has blocks compiled and executes them,
writes to guest memory and invalidates ranges, in any order. A `Workbench` is the machine with the
blocks that its user has been given, an `Action` one of these operations, and an `Outcome` all that
can be seen of it. `outcomes` lists them for a history.

Where a block comes from is the main result: every block in the cache was compiled at an earlier
point of the history, from the window as it was then, and no range invalidated since overlaps it
(`provenance_cached`); every block that the user holds was compiled at an earlier point, too
(`provenance_held`). So the block that an operation executes, if it executes one (`block?`), always
stands for some guest code (`provenance`).
-/

namespace Dynarec

open Bridge (GuestMemory)
open Codegen (CompileError CompiledBlock)
open Guest (ExitReason Range Window)
open Machine (Event)

variable {σ : Type}

/-- What a user asks of a virtual machine. -/
inductive Action
  | setCpu (cpu : Cpu)
  | run
  | compile (start : Address)
  /-- Executes one of the blocks that the user has been given, by its number. -/
  | execute (held : Nat)
  | load (a : Address) (data : List Byte)
  | invalidate (r : Range)
  deriving DecidableEq

/-- What an operation returns. -/
inductive Answer
  | done
  | ran (outcome : Except VmError ExitReason)
  | compiled (outcome : Except CompileError CompiledBlock)
  /-- The user holds no block of this number. -/
  | notHeld
  | loaded (fits : Bool)
  | dropped (count : Nat)

/-- A virtual machine, and the blocks that its user **holds**. -/
structure Workbench (σ : Type) where
  vm : VirtualMachine σ
  held : List CompiledBlock

/-- What can be seen of an operation: what it returned, the guest processor, guest memory and the
clock count afterwards, and what was done to guest memory on the way. -/
structure Outcome (σ : Type) where
  answer : Answer
  cpu : Cpu
  memory : GuestMemory σ
  contextCycles : HostWord
  events : List Event

namespace Workbench

/-- A machine that has not run yet. -/
def ofMemory (memory : GuestMemory σ) : Workbench σ := ⟨.ofMemory memory, []⟩

/-- Carries out **one operation**. -/
def perform (setup : Setup σ) (w : Workbench σ) : Action → Answer × Workbench σ
  | .setCpu cpu => (.done, { w with vm := { w.vm with cpu } })
  | .run => (.ran (w.vm.run setup).1, { w with vm := (w.vm.run setup).2 })
  | .compile start =>
    let outcome := w.vm.compile setup start
    (.compiled outcome, { w with held := w.held ++ outcome.toOption.toList })
  | .execute number =>
    match w.held[number]? with
    | some block =>
      (.ran (w.vm.execute setup block).1, { w with vm := (w.vm.execute setup block).2 })
    | none => (.notHeld, w)
  | .load a data =>
    match w.vm.load? a data with
    | some vm => (.loaded true, { w with vm })
    | none => (.loaded false, w)
  | .invalidate r => (.dropped (w.vm.invalidate r).1, { w with vm := (w.vm.invalidate r).2 })

/-- What an operation does to guest memory. Only running a block has **events**: what a user writes
to the window is no access of the guest. -/
def events (setup : Setup σ) (w : Workbench σ) : Action → List Event
  | .run => w.vm.runEvents setup
  | .execute number =>
    match w.held[number]? with
    | some block => w.vm.executeEvents setup block
    | none => []
  | _ => []

/-- The machine after one operation. -/
def next (setup : Setup σ) (w : Workbench σ) (action : Action) : Workbench σ :=
  (w.perform setup action).2

/-- What can be seen of one operation. -/
def outcome (setup : Setup σ) (w : Workbench σ) (action : Action) : Outcome σ where
  answer := (w.perform setup action).1
  cpu := (w.next setup action).vm.cpu
  memory := (w.next setup action).vm.memory
  contextCycles := (w.next setup action).vm.contextCycles
  events := w.events setup action

/-- The machine after a **history**. -/
def after (setup : Setup σ) (w : Workbench σ) (actions : List Action) : Workbench σ :=
  actions.foldl (·.next setup) w

/-- What can be seen of a **history**, operation by operation. -/
def outcomes (setup : Setup σ) : Workbench σ → List Action → List (Outcome σ)
  | _, [] => []
  | w, action :: actions => w.outcome setup action :: outcomes setup (w.next setup action) actions

/-- The window of guest memory. -/
def window (w : Workbench σ) : Window := w.vm.memory.window

variable {setup : Setup σ} {w : Workbench σ}

@[simp]
theorem after_nil : w.after setup [] = w := rfl

@[simp]
theorem after_cons (action : Action) (actions : List Action) :
    w.after setup (action :: actions) = (w.next setup action).after setup actions := rfl

theorem after_append (actions more : List Action) :
    w.after setup (actions ++ more) = (w.after setup actions).after setup more :=
  List.foldl_append

theorem after_snoc (actions : List Action) (action : Action) :
    w.after setup (actions ++ [action]) = (w.after setup actions).next setup action :=
  after_append actions [action]

/-- Looking at a history operation by operation: the outcomes of the later ones are those of the
machine that the earlier ones leave behind. -/
theorem outcomes_append (actions more : List Action) :
    w.outcomes setup (actions ++ more) =
      w.outcomes setup actions ++ (w.after setup actions).outcomes setup more := by
  induction actions generalizing w with
  | nil => rfl
  | cons action actions ih => rw [List.cons_append, outcomes, outcomes, ih]; rfl

end Workbench

/-! ### Where blocks come from -/

namespace VirtualMachine

variable {setup : Setup σ} {vm : VirtualMachine σ}

/-- Executing a block does not look at the cache and leaves it alone. -/
theorem execute_withCache (setup : Setup σ) (vm : VirtualMachine σ) (block : CompiledBlock)
    (cache : Cache) :
    ({ vm with cache } : VirtualMachine σ).execute setup block =
      ((vm.execute setup block).1, { (vm.execute setup block).2 with cache }) := by
  simp only [execute]
  split
  · rfl
  · split <;> rfl

theorem cache_execute (setup : Setup σ) (vm : VirtualMachine σ) (block : CompiledBlock) :
    (vm.execute setup block).2.cache = vm.cache :=
  congrArg (·.2.cache) (execute_withCache setup vm block vm.cache)

variable {vm' : VirtualMachine σ} {start : Address} {block : CompiledBlock}

/-- The block at a guest address is **cached**, or it has just been compiled from the window as it
is. In the latter case it is cached from then on. -/
theorem mem_cache_or_compile_of_blockAt (h : vm.blockAt setup start = .ok (block, vm')) :
    (start, block) ∈ vm.cache.blocks ∧ vm' = vm ∨
      vm.compile setup start = .ok block ∧
        vm' = { vm with cache := vm.cache.insert start block } := by
  rw [blockAt] at h
  split at h
  · rename_i hfind
    cases h
    exact .inl ⟨Cache.mem_of_find? hfind, rfl⟩
  · split at h
    · cases h
    · rename_i hcompile
      cases h
      exact .inr ⟨hcompile, rfl⟩

/-- **A run** executes the block at the next guest address, with the cache that finding it leaves
behind. -/
theorem run_of_blockAt (h : vm.blockAt setup vm.cpu.nextAddress = .ok (block, vm')) :
    vm.run setup =
        ((vm.execute setup block).1, { (vm.execute setup block).2 with cache := vm'.cache }) ∧
      vm.runEvents setup = vm.executeEvents setup block := by
  have hexecute := execute_withCache setup vm block vm'.cache
  rw [← blockAt_ok h] at hexecute
  rw [run, runEvents, h]
  refine ⟨hexecute, ?_⟩
  rw [blockAt_ok h]
  rfl

/-- A run that finds no block leaves the machine as it is. -/
theorem run_of_blockAt_error {e : CompileError}
    (h : vm.blockAt setup vm.cpu.nextAddress = .error e) :
    vm.run setup = (.error (.compile e), vm) ∧ vm.runEvents setup = [] := by
  rw [run, runEvents, h]
  exact ⟨rfl, rfl⟩

/-- A run caches nothing but the block at the next guest address, compiled from the window as it
is. -/
theorem mem_cache_run (h : (start, block) ∈ (vm.run setup).2.cache.blocks) :
    (start, block) ∈ vm.cache.blocks ∨ vm.compile setup start = .ok block := by
  cases hblock : vm.blockAt setup vm.cpu.nextAddress with
  | error e =>
    rw [(run_of_blockAt_error hblock).1] at h
    exact .inl h
  | ok found =>
    obtain ⟨found, vm'⟩ := found
    rw [(run_of_blockAt hblock).1] at h
    rcases mem_cache_or_compile_of_blockAt hblock with ⟨-, rfl⟩ | ⟨hcompile, rfl⟩
    · exact .inl h
    · rcases List.mem_cons.mp h with heq | hold
      · cases heq
        exact .inr hcompile
      · exact .inl hold

end VirtualMachine

namespace Workbench

variable {setup : Setup σ} {w : Workbench σ} {start : Address} {block : CompiledBlock}

/-- **What is cached** after an operation was cached before and does not overlap a range that the
operation invalidates, or it has just been compiled. -/
theorem mem_cache_next {action : Action}
    (h : (start, block) ∈ (w.next setup action).vm.cache.blocks) :
    ((start, block) ∈ w.vm.cache.blocks ∧
        ∀ r, action = .invalidate r → block.range.overlaps r = false) ∨
      action = .run ∧ w.vm.compile setup start = .ok block := by
  cases action with
  | setCpu cpu => exact .inl ⟨h, nofun⟩
  | run =>
    rcases VirtualMachine.mem_cache_run h with hold | hnew
    · exact .inl ⟨hold, nofun⟩
    · exact .inr ⟨rfl, hnew⟩
  | compile _ => exact .inl ⟨h, nofun⟩
  | execute number =>
    refine .inl ⟨?_, nofun⟩
    rw [next, perform] at h
    split at h
    · rwa [VirtualMachine.cache_execute] at h
    · exact h
  | load a data =>
    refine .inl ⟨?_, nofun⟩
    rw [next, perform, VirtualMachine.load?] at h
    cases hload : w.vm.memory.window.load? a data with
    | none =>
      rw [hload] at h
      exact h
    | some window =>
      rw [hload] at h
      exact h
  | invalidate r =>
    obtain ⟨hmem, hoverlaps⟩ := Cache.mem_invalidate.mp h
    exact .inl ⟨hmem, fun r' hr => by cases hr; exact hoverlaps⟩

/-- A user gets a block by having it compiled, and may hold on to it after it has been
invalidated. -/
theorem mem_held_next {action : Action} (h : block ∈ (w.next setup action).held) :
    block ∈ w.held ∨ ∃ start, w.vm.compile setup start = .ok block := by
  cases action with
  | compile start =>
    rcases List.mem_append.mp h with hold | hnew
    · exact .inl hold
    · refine .inr ⟨start, ?_⟩
      cases hcompile : w.vm.compile setup start with
      | error e => simp [hcompile, Except.toOption] at hnew
      | ok compiled =>
        rw [hcompile] at hnew
        rw [List.mem_singleton.mp hnew]
  | execute number =>
    rw [next, perform] at h
    split at h <;> exact .inl h
  | load a data =>
    rw [next, perform] at h
    split at h <;> exact .inl h
  | _ => exact .inl h

/-- **Cached blocks** were compiled at an earlier point of the history, from the window as it was
then, and no range that overlaps them has been invalidated since. -/
theorem provenance_cached (hempty : w.vm.cache = .empty) {actions : List Action}
    (h : (start, block) ∈ (w.after setup actions).vm.cache.blocks) :
    ∃ before since, actions = before ++ since ∧
      (w.after setup before).vm.compile setup start = .ok block ∧
      ∀ r, .invalidate r ∈ since → block.range.overlaps r = false := by
  induction actions using List.reverseRecOn with
  | nil =>
    rw [after_nil, hempty] at h
    cases h
  | append_singleton actions action ih =>
    rw [after_snoc] at h
    rcases mem_cache_next h with ⟨hold, haction⟩ | ⟨rfl, hnew⟩
    · obtain ⟨before, since, rfl, hcompile, hsince⟩ := ih hold
      refine ⟨before, since ++ [action], (List.append_assoc _ _ _), hcompile, fun r hr => ?_⟩
      rcases List.mem_append.mp hr with hr | hr
      · exact hsince r hr
      · exact haction r (List.mem_singleton.mp hr).symm
    · exact ⟨actions, [.run], rfl, hnew, fun r hr => by cases List.mem_singleton.mp hr⟩

/-- **Blocks that the user holds** were compiled at an earlier point of the history. The induction
is on the history, from its end. -/
theorem provenance_held (hnone : w.held = []) {actions : List Action}
    (h : block ∈ (w.after setup actions).held) :
    ∃ before since start, actions = before ++ since ∧
      (w.after setup before).vm.compile setup start = .ok block := by
  induction actions using List.reverseRecOn with
  | nil =>
    rw [after_nil, hnone] at h
    cases h
  | append_singleton actions action ih =>
    rw [after_snoc] at h
    rcases mem_held_next h with hold | ⟨start, hnew⟩
    · obtain ⟨before, since, start, rfl, hcompile⟩ := ih hold
      exact ⟨before, since ++ [action], start, List.append_assoc _ _ _, hcompile⟩
    · exact ⟨actions, [action], start, rfl, hnew⟩

/-- A byte of the window that is not what it was has been **changed** by one of the operations,
somewhere in the history. -/
theorem exists_change {actions : List Action} {a : Address}
    (h : (w.after setup actions).window.get a ≠ w.window.get a) :
    ∃ before action rest, actions = before ++ action :: rest ∧
      ((w.after setup before).next setup action).window.get a ≠
        (w.after setup before).window.get a := by
  induction actions generalizing w with
  | nil => exact absurd rfl h
  | cons action actions ih =>
    by_cases hfirst : (w.next setup action).window.get a = w.window.get a
    · obtain ⟨before, changing, rest, rfl, hchange⟩ := ih (hfirst ▸ h)
      exact ⟨action :: before, changing, rest, rfl, hchange⟩
    · exact ⟨[], action, actions, rfl, hfirst⟩

/-! ### The block of an operation -/

variable {action : Action}

/-- The block that an operation **executes**, if it does execute one. -/
def block? (setup : Setup σ) (w : Workbench σ) : Action → Option CompiledBlock
  | .run => (w.vm.blockAt setup w.vm.cpu.nextAddress).toOption.map (·.1)
  | .execute number => w.held[number]?
  | _ => none

theorem exists_blockAt_of_block? (h : w.block? setup .run = some block) :
    ∃ vm', w.vm.blockAt setup w.vm.cpu.nextAddress = .ok (block, vm') := by
  rw [block?] at h
  cases hblock : w.vm.blockAt setup w.vm.cpu.nextAddress with
  | error e =>
    rw [hblock] at h
    cases h
  | ok found =>
    rw [hblock] at h
    cases h
    exact ⟨found.2, rfl⟩

/-- A run that executes no block fails at **compiling** one and does nothing else: the machine is as
it was. -/
theorem run_of_block?_eq_none (h : w.block? setup .run = none) :
    ∃ e, w.vm.run setup = (.error (.compile e), w.vm) ∧ w.vm.runEvents setup = [] := by
  rw [block?] at h
  cases hblock : w.vm.blockAt setup w.vm.cpu.nextAddress with
  | error e => exact ⟨e, VirtualMachine.run_of_blockAt_error hblock⟩
  | ok found =>
    rw [hblock] at h
    cases h

/-- An operation that executes a block does what the block does, be it found in the cache or held by
the user. -/
theorem perform_of_block? (h : w.block? setup action = some block) :
    (w.next setup action).vm.cpu = (w.vm.execute setup block).2.cpu ∧
      (w.next setup action).vm.contextCycles = (w.vm.execute setup block).2.contextCycles ∧
      w.events setup action = w.vm.executeEvents setup block := by
  cases action with
  | run =>
    obtain ⟨vm', hblock⟩ := exists_blockAt_of_block? h
    obtain ⟨hrun, hevents⟩ := VirtualMachine.run_of_blockAt hblock
    rw [next, perform, events, hrun]
    exact ⟨rfl, rfl, hevents⟩
  | execute number =>
    replace h : w.held[number]? = some block := h
    rw [next, perform, events, h]
    exact ⟨rfl, rfl, rfl⟩
  | _ => cases h

/-- An operation that executes a block **answers** how that ended. -/
theorem answer_of_block? (h : w.block? setup action = some block) :
    (w.perform setup action).1 = .ran (w.vm.execute setup block).1 := by
  cases action with
  | run =>
    obtain ⟨vm', hblock⟩ := exists_blockAt_of_block? h
    rw [perform, (VirtualMachine.run_of_blockAt hblock).1]
  | execute number =>
    replace h : w.held[number]? = some block := h
    rw [perform, h]
  | _ => cases h

/-- An operation that executes no block fails at **compiling** one, if it is a run. -/
theorem answer_of_block?_eq_none (h : w.block? setup action = none)
    {outcome : Except VmError ExitReason} (hran : (w.perform setup action).1 = .ran outcome) :
    ∃ e, outcome = .error (.compile e) := by
  cases action with
  | run =>
    obtain ⟨e, hrun, -⟩ := run_of_block?_eq_none h
    rw [perform, hrun] at hran
    cases hran
    exact ⟨e, rfl⟩
  | execute number =>
    replace h : w.held[number]? = none := h
    rw [perform, h] at hran
    cases hran
  | load a data =>
    rw [perform] at hran
    split at hran <;> cases hran
  | _ => cases hran

/-- An operation that executes no block calls no handler. -/
theorem perform_of_block?_eq_none (h : w.block? setup action = none) :
    (w.next setup action).vm.contextCycles = w.vm.contextCycles ∧ w.events setup action = [] ∧
      ∀ reason, (w.perform setup action).1 ≠ .ran (.ok reason) := by
  cases action with
  | run =>
    obtain ⟨e, hrun, hevents⟩ := run_of_block?_eq_none h
    rw [next, perform, events, hrun]
    exact ⟨rfl, hevents, by rintro _ ⟨⟩⟩
  | execute number =>
    replace h : w.held[number]? = none := h
    rw [next, perform, events, h]
    exact ⟨rfl, rfl, by rintro _ ⟨⟩⟩
  | load a data =>
    rw [next, perform, VirtualMachine.load?]
    cases w.vm.memory.window.load? a data with
    | none => exact ⟨rfl, rfl, by rintro _ ⟨⟩⟩
    | some window => exact ⟨rfl, rfl, by rintro _ ⟨⟩⟩
  | _ => exact ⟨rfl, rfl, by rintro _ ⟨⟩⟩

/-- **The block of an operation** was compiled at some point of the history; that of a run, from the
next guest address on. -/
theorem provenance (hcache : w.vm.cache = .empty) (hheld : w.held = []) {history : List Action}
    (h : (w.after setup history).block? setup action = some block) :
    ∃ before since start, history = before ++ since ∧
      (action = .run → start = (w.after setup history).vm.cpu.nextAddress) ∧
      (w.after setup before).vm.compile setup start = .ok block := by
  cases action with
  | run =>
    obtain ⟨vm', hblock⟩ := exists_blockAt_of_block? h
    rcases VirtualMachine.mem_cache_or_compile_of_blockAt hblock with ⟨hmem, -⟩ | ⟨hcompile, -⟩
    · obtain ⟨before, since, hsplit, hcompile, -⟩ := provenance_cached hcache hmem
      exact ⟨before, since, _, hsplit, fun _ => rfl, hcompile⟩
    · exact ⟨history, [], _, (List.append_nil _).symm, fun _ => rfl, hcompile⟩
  | execute number =>
    obtain ⟨before, since, start, hsplit, hcompile⟩ :=
      provenance_held hheld (List.mem_of_getElem? h)
    exact ⟨before, since, start, hsplit, nofun, hcompile⟩
  | _ => cases h

/-- The block of an operation **stands for guest code**. -/
theorem belongsTo_of_block? (hcache : w.vm.cache = .empty) (hheld : w.held = [])
    {history : List Action} (h : (w.after setup history).block? setup action = some block) :
    ∃ image start listing ending,
      block.BelongsTo setup.env.layout image start listing ending := by
  obtain ⟨before, since, start, -, -, hcompile⟩ := provenance hcache hheld h
  obtain ⟨ending, -, hbelongs⟩ := VirtualMachine.belongsTo_of_compile hcompile
  exact ⟨_, start, _, ending, hbelongs⟩

end Workbench

end Dynarec
