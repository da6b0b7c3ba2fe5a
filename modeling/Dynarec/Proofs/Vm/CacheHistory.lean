import Dynarec.Proofs.Vm.History

/-!
# The cache as a function of the history

Only runs put blocks into the cache and only invalidations take them out (`cache_next`). So what is
cached after a history can be read off it (`find?_after_iff`): a block is cached under an address
exactly if the history **leaves** it there (`Leaves`): some run at that address executed it, and no
range with one of its addresses has been invalidated since. Cached blocks are **well-placed**
(`WellPlaced`): they start at the address under which they are cached, and hold no more instructions
than the machine allows.

An attempt to compile a block that fails leaves no trace, whether it is made for a run
(`next_of_ran_error`) or on its own (`next_of_compiled_error`).
-/

namespace Dynarec

open Bridge (GuestMemory)
open Codegen (CompileError CompiledBlock)
open Guest (Range)

variable {σ : Type} {setup : Setup σ}

namespace VirtualMachine

variable {vm vm' : VirtualMachine σ} {start : Address} {block : CompiledBlock}

/-- Looking up a block that is cached, or compiling it, leaves it in the cache, and the others with
it. -/
theorem find?_of_blockAt (h : vm.blockAt setup start = .ok (block, vm')) :
    vm'.cache.find? start = some block ∧
      ∀ a cached, vm.cache.find? a = some cached → vm'.cache.find? a = some cached := by
  rw [blockAt] at h
  split at h
  · next hfind =>
    cases h
    exact ⟨hfind, fun _ _ hcached => hcached⟩
  · next hnone =>
    split at h
    · cases h
    · cases h
      refine ⟨Cache.find?_insert_self vm.cache start block, fun a cached hcached => ?_⟩
      have hne : a ≠ start := by
        rintro rfl
        cases hnone.symm.trans hcached
      exact (Cache.find?_insert_of_ne hne block).trans hcached

/-- Executing a block never fails at compiling one. -/
theorem execute_ne_compileError (vm : VirtualMachine σ) (block : CompiledBlock) (e : CompileError) :
    (vm.execute setup block).1 ≠ .error (.compile e) := by
  intro h
  rw [execute] at h
  split at h
  · cases h
  · split at h
    · cases h
    · cases h

end VirtualMachine

/-- Whether a block is **well-placed** under an address: it starts there, ends at the top of guest
memory at the latest, and holds at least one instruction, but no more than allowed. -/
structure Codegen.CompiledBlock.WellPlaced (block : CompiledBlock) (limit : Nat) (a : Address) :
    Prop where
  start : block.range.start = a
  stop_le : block.range.stop ≤ 0x10000
  one_le_count : 1 ≤ block.instructionCount
  count_le : block.instructionCount ≤ max 1 limit

/-- What is compiled at an address is well-placed there. -/
theorem VirtualMachine.wellPlaced_of_compile {vm : VirtualMachine σ} {start : Address}
    {block : CompiledBlock} (h : vm.compile setup start = .ok block) :
    block.WellPlaced setup.config.maxBlockInstructions start := by
  obtain ⟨ending, -, hreads, htranslates⟩ := belongsTo_of_compile h
  have hallowed := vm.memory.window.image.length_listing_le_allowed
    (setup.config.maxBlockInstructions - 1) start.toNat
  have hnonempty := List.length_pos_iff.mpr hreads.ne_nil
  rw [← Codegen.scan, ← htranslates.count] at hallowed
  exact {
    start := htranslates.start
    stop_le := block.range.fits
    one_le_count := htranslates.count ▸ hnonempty
    count_le := by omega }

namespace Workbench

variable {w : Workbench σ} {a : Address} {block : CompiledBlock} {action : Action}

/-! ### One operation -/

/-- Operations other than runs and invalidations **leave the cache** as it is. -/
theorem cache_next (hrun : action ≠ .run) (hinvalidate : ∀ r, action ≠ .invalidate r) :
    (w.next setup action).vm.cache = w.vm.cache := by
  cases action with
  | setCpu cpu => rfl
  | run => exact absurd rfl hrun
  | compile start => rfl
  | execute number =>
    rw [next, perform]
    split
    · exact VirtualMachine.cache_execute setup w.vm _
    · rfl
  | load a data =>
    rw [next, perform, VirtualMachine.load?]
    cases w.vm.memory.window.load? a data with
    | none => rfl
    | some window => rfl
  | invalidate r => exact absurd rfl (hinvalidate r)

/-- After a run the cache is the one in which its block was **found**. -/
theorem cache_next_run {vm' : VirtualMachine σ}
    (h : w.vm.blockAt setup w.vm.cpu.nextAddress = .ok (block, vm')) :
    (w.next setup .run).vm.cache = vm'.cache := by
  rw [next, perform, (VirtualMachine.run_of_blockAt h).1]

/-- A run **caches** the block that it executes and keeps the others. -/
theorem find?_next_run (h : w.block? setup .run = some block) :
    (w.next setup .run).vm.cache.find? w.vm.cpu.nextAddress = some block ∧
      ∀ a cached, w.vm.cache.find? a = some cached →
        (w.next setup .run).vm.cache.find? a = some cached := by
  obtain ⟨vm', hblock⟩ := exists_blockAt_of_block? h
  rw [cache_next_run hblock]
  exact VirtualMachine.find?_of_blockAt hblock

/-- A run that cannot compile its block does nothing. -/
theorem next_run_of_block?_eq_none (h : w.block? setup .run = none) :
    w.next setup .run = w ∧ w.events setup .run = [] := by
  obtain ⟨e, hrun, hevents⟩ := run_of_block?_eq_none h
  rw [next, perform, events, hrun]
  exact ⟨rfl, hevents⟩

/-- A cached block **stays** cached, unless a range that overlaps it is invalidated. -/
theorem find?_next (hfind : w.vm.cache.find? a = some block)
    (hkeep : ∀ r, action = .invalidate r → block.range.overlaps r = false) :
    (w.next setup action).vm.cache.find? a = some block := by
  by_cases hrun : action = .run
  · subst hrun
    cases hblock : w.block? setup .run with
    | none =>
      rw [(next_run_of_block?_eq_none hblock).1]
      exact hfind
    | some executed => exact (find?_next_run hblock).2 a block hfind
  · by_cases hinvalidate : ∃ r, action = .invalidate r
    · obtain ⟨r, rfl⟩ := hinvalidate
      exact Cache.find?_invalidate hfind (hkeep r rfl)
    · rw [cache_next hrun (not_exists.mp hinvalidate)]
      exact hfind

/-- What is cached after an operation was **cached before** and does not overlap a range that the
operation invalidates, or the operation is a run of it. -/
theorem mem_cache_or_run (h : (a, block) ∈ (w.next setup action).vm.cache.blocks) :
    ((a, block) ∈ w.vm.cache.blocks ∧
        ∀ r, action = .invalidate r → block.range.overlaps r = false) ∨
      action = .run ∧ w.vm.cpu.nextAddress = a ∧ w.block? setup .run = some block := by
  rcases mem_cache_next h with hold | ⟨rfl, -⟩
  · exact .inl hold
  cases hblock : w.block? setup .run with
  | none =>
    rw [(next_run_of_block?_eq_none hblock).1] at h
    exact .inl ⟨h, nofun⟩
  | some executed =>
    obtain ⟨vm', hat⟩ := exists_blockAt_of_block? hblock
    rw [cache_next_run hat] at h
    rcases VirtualMachine.mem_cache_or_compile_of_blockAt hat with ⟨-, rfl⟩ | ⟨-, rfl⟩
    · exact .inl ⟨h, nofun⟩
    · rcases List.mem_cons.mp h with heq | hold
      · cases heq
        exact .inr ⟨rfl, rfl, rfl⟩
      · exact .inl ⟨hold, nofun⟩

/-- A run that **fails at compiling** its block does nothing at all. -/
theorem next_of_ran_error {e : CompileError}
    (h : (w.perform setup action).1 = .ran (.error (.compile e))) :
    w.next setup action = w ∧ w.events setup action = [] := by
  cases hblock : w.block? setup action with
  | some block =>
    have hran := (answer_of_block? hblock).symm.trans h
    exact absurd (Answer.ran.inj hran) (w.vm.execute_ne_compileError block e)
  | none =>
    -- of the operations that execute no block, only a run answers like one
    cases action with
    | run => exact next_run_of_block?_eq_none hblock
    | execute number =>
      have hheld : w.held[number]? = none := hblock
      rw [perform, hheld] at h
      cases h
    | load a data =>
      rw [perform] at h
      split at h
      · cases h
      · cases h
    | _ => cases h

/-- A compilation that **fails** does nothing at all. -/
theorem next_of_compiled_error {e : CompileError}
    (h : (w.perform setup action).1 = .compiled (.error e)) :
    w.next setup action = w ∧ w.events setup action = [] := by
  cases action with
  | compile start =>
    have herror : w.vm.compile setup start = .error e := Answer.compiled.inj h
    have hheld : w.held ++ (w.vm.compile setup start).toOption.toList = w.held := by
      rw [herror]
      exact List.append_nil w.held
    refine ⟨?_, rfl⟩
    rw [next, perform]
    dsimp only
    rw [hheld]
  | execute number =>
    rw [perform] at h
    split at h
    · cases h
    · cases h
  | load a data =>
    rw [perform] at h
    split at h
    · cases h
    · cases h
  | _ => cases h

/-! ### Histories -/

/-- Whether a history **leaves** a block under an address: a run at that address executed the block,
and no range that shares an address with the block has been invalidated since. -/
def Leaves (setup : Setup σ) (w : Workbench σ) (history : List Action) (a : Address)
    (block : CompiledBlock) : Prop :=
  ∃ before since, history = before ++ .run :: since ∧
    (w.after setup before).vm.cpu.nextAddress = a ∧
    (w.after setup before).block? setup .run = some block ∧
    ∀ r, .invalidate r ∈ since → ¬ ∃ b, block.range.contains b = true ∧ r.contains b = true

/-- A cached block **stays** cached until a range that overlaps it is invalidated. -/
theorem find?_after {history : List Action} (hfind : w.vm.cache.find? a = some block)
    (hkeep : ∀ r, .invalidate r ∈ history → block.range.overlaps r = false) :
    (w.after setup history).vm.cache.find? a = some block := by
  induction history generalizing w with
  | nil => exact hfind
  | cons action history ih =>
    have hfirst : (w.next setup action).vm.cache.find? a = some block :=
      find?_next hfind fun r hr => hkeep r (hr ▸ List.mem_cons_self)
    exact ih hfirst fun r hr => hkeep r (List.mem_cons_of_mem action hr)

/-- A block that a history leaves **is cached**. -/
theorem find?_after_of_leaves {history : List Action} (h : w.Leaves setup history a block) :
    (w.after setup history).vm.cache.find? a = some block := by
  obtain ⟨before, since, rfl, rfl, hblock, hsince⟩ := h
  rw [after_append, after_cons]
  refine find?_after (find?_next_run hblock).1 fun r hr => ?_
  have hapart := mt Range.overlaps_iff.mp (hsince r hr)
  exact Bool.eq_false_iff.mpr hapart

/-- One more operation leaves a block, unless it invalidates one of its addresses. -/
theorem Leaves.snoc {history : List Action} (h : w.Leaves setup history a block)
    (hkeep : ∀ r, action = .invalidate r → block.range.overlaps r = false) :
    w.Leaves setup (history ++ [action]) a block := by
  obtain ⟨before, since, rfl, hnext, hblock, hsince⟩ := h
  refine ⟨before, since ++ [action], List.append_assoc .., hnext, hblock, fun r hr => ?_⟩
  rcases List.mem_append.mp hr with hr | hr
  · exact hsince r hr
  · have hapart := hkeep r (List.mem_singleton.mp hr).symm
    exact fun hshared => Bool.eq_false_iff.mp hapart (Range.overlaps_iff.mpr hshared)

/-- **What is cached** has been left by the history. -/
theorem leaves_of_mem (hempty : w.vm.cache = .empty) {history : List Action}
    (h : (a, block) ∈ (w.after setup history).vm.cache.blocks) :
    w.Leaves setup history a block := by
  induction history using List.reverseRecOn with
  | nil =>
    rw [after_nil, hempty] at h
    cases h
  | append_singleton history action ih =>
    rw [after_snoc] at h
    rcases mem_cache_or_run h with ⟨hold, hkeep⟩ | ⟨rfl, hnext, hblock⟩
    · exact (ih hold).snoc hkeep
    · exact ⟨history, [], rfl, hnext, hblock, nofun⟩

/-- **The cache as a function of the history**: a block is found under an address exactly if the
history leaves it there. -/
theorem find?_after_iff (hempty : w.vm.cache = .empty) {history : List Action} :
    (w.after setup history).vm.cache.find? a = some block ↔ w.Leaves setup history a block :=
  ⟨fun hfind => leaves_of_mem hempty (Cache.mem_of_find? hfind), find?_after_of_leaves⟩

/-- **The cache** of a machine, however it has been used:

* An address is cached exactly if the history leaves a block there.
* The cached blocks are well-placed.
* Setting the processor, compiling, executing held blocks and writing to the window leave the cache
  alone.
* If an operation fails at compiling a block, everything is as before, and no memory has been
  accessed. -/
theorem cache_after (setup : Setup σ) (memory : GuestMemory σ) (history : List Action) :
    (∀ a, ((ofMemory memory).after setup history).vm.isCached a = true ↔
      ∃ block, (ofMemory memory).Leaves setup history a block) ∧
    (∀ a block, ((ofMemory memory).after setup history).vm.cache.find? a = some block →
      block.WellPlaced setup.config.maxBlockInstructions a) ∧
    (∀ action, action ≠ .run → (∀ r, action ≠ .invalidate r) →
      (((ofMemory memory).after setup history).next setup action).vm.cache =
        ((ofMemory memory).after setup history).vm.cache) ∧
    ∀ action e,
      (((ofMemory memory).after setup history).perform setup action).1 =
          .ran (.error (.compile e)) ∨
        (((ofMemory memory).after setup history).perform setup action).1 =
          .compiled (.error e) →
      ((ofMemory memory).after setup history).next setup action =
          (ofMemory memory).after setup history ∧
        ((ofMemory memory).after setup history).events setup action = [] := by
  have hempty : (ofMemory memory).vm.cache = .empty := rfl
  refine ⟨fun a => ?_, fun a block hfind => ?_, fun action => cache_next,
    fun action e herror => herror.elim next_of_ran_error next_of_compiled_error⟩
  · rw [VirtualMachine.isCached, Cache.contains, Option.isSome_iff_exists]
    exact exists_congr fun block => find?_after_iff hempty
  · obtain ⟨before, since, -, hcompile, -⟩ :=
      provenance_cached hempty (Cache.mem_of_find? hfind)
    exact VirtualMachine.wellPlaced_of_compile hcompile

/-- Memory with a loop at its start: `NOP`, and a jump back to it. -/
def spinning : GuestMemory Demo.Messages := Demo.memory [0x00, 0x18, 0xFD]

/-- The last byte of the loop. -/
def lastOfLoop : Range := ⟨2, 1, by decide, by decide⟩

theorem block?_spinning :
    ∃ block, (ofMemory spinning).block? (Demo.setupWith 64) .run = some block ∧
      block.range.start = 0 ∧ block.range.stop = 3 := by
  have hscan : (Codegen.scan (Demo.setupWith 64).config spinning.window.image 0).outcome =
      .ok ⟨3, false⟩ := rfl
  obtain ⟨block, hcompile, htranslates⟩ :=
    Codegen.compile_of_scan (Demo.setupWith 64).env.layout (Nat.le_refl _) hscan
  replace hcompile : (ofMemory spinning).vm.compile (Demo.setupWith 64) 0 = .ok block := hcompile
  obtain ⟨vm', hblock⟩ := VirtualMachine.blockAt_of_compile hcompile fun _ hb => nomatch hb
  refine ⟨block, ?_, htranslates.start, htranslates.stop⟩
  have hnext : (ofMemory spinning).vm.cpu.nextAddress = 0 := rfl
  rw [block?, hnext, hblock]
  rfl

/-- The loop is cached when it has run, until its last byte is invalidated. -/
theorem cache_after_spinning :
    ((ofMemory spinning).after (Demo.setupWith 64) [.run]).vm.isCached 0 = true ∧
      ((ofMemory spinning).after (Demo.setupWith 64) [.run, .invalidate lastOfLoop]).vm.isCached 0 =
        false := by
  obtain ⟨block, hblock, hstart, hstop⟩ := block?_spinning
  constructor
  · rw [(cache_after (Demo.setupWith 64) spinning [.run]).1 0]
    exact ⟨block, [], [], rfl, rfl, hblock, nofun⟩
  · rw [Bool.eq_false_iff, ne_eq, (cache_after (Demo.setupWith 64) spinning _).1 0]
    rintro ⟨block', before, since, hsplit, -, hblock', hsince⟩
    -- there is one run only, and the invalidation comes after it
    obtain ⟨rfl, rfl⟩ : before = [] ∧ since = [.invalidate lastOfLoop] := by
      cases before with
      | nil => exact ⟨rfl, (List.cons.inj hsplit).2.symm⟩
      | cons action before =>
        have htail := (List.cons.inj hsplit).2
        cases before with
        | nil => cases htail
        | cons _ before => cases before <;> cases htail
    obtain rfl : block = block' := Option.some.inj (hblock.symm.trans hblock')
    refine hsince lastOfLoop List.mem_cons_self ⟨2, ?_, by decide⟩
    rw [Range.contains_iff, hstart, hstop]
    decide

end Workbench

end Dynarec
