import Dynarec.Proofs.Vm.History

/-!
# Cache coherence

A machine keeps running a cached block after its guest bytes have changed, until they are
invalidated. A history **announces** its changes if every byte that an operation changes, be it a
write of the user, a store of the guest or the work of a handler, is invalidated before the next
run (`Workbench.Announced`). Such a history cannot tell that there is a cache: whatever it does, its
outcomes are those of a machine that forgets all blocks before every operation
(`outcomes_eq_afresh`), but for how many blocks an invalidation drops.

The reason is that a cached block is always the one that would be compiled now
(`compile_of_cached`): its bytes are as they were when it was compiled, since a range that covers a
change overlaps the block and would have dropped it.
-/

namespace Dynarec

open Codegen (CompiledBlock)
open Guest (Range)

variable {σ : Type} {setup : Setup σ}

/-- An answer without the number of blocks that were dropped. -/
def Answer.uncounted : Answer → Answer
  | .dropped _ => .dropped 0
  | answer => answer

/-- An outcome without the number of blocks that were dropped. -/
def Outcome.uncounted (o : Outcome σ) : Outcome σ := { o with answer := o.answer.uncounted }

namespace VirtualMachine

variable {vm vm' : VirtualMachine σ} {start : Address} {block : CompiledBlock}

/-- A block compiles to the same code as long as the bytes of its range stay. -/
theorem compile_of_get_eq (h : vm.compile setup start = .ok block)
    (hbytes : ∀ a, block.range.contains a = true →
      vm'.memory.window.get a = vm.memory.window.get a) :
    vm'.compile setup start = .ok block := by
  have hsize : vm'.memory.window.image.size = vm.memory.window.image.size := rfl
  refine Codegen.compile_congr (Nat.le_refl _) hsize h fun k hstart hstop => hbytes _ ?_
  have hfits : block.range.stop ≤ 0x10000 := block.range.fits
  rw [Range.contains_iff, BitVec.toNat_ofNat, Nat.mod_eq_of_lt (by omega)]
  exact ⟨hstart, hstop⟩

/-- Executing a block on a machine **without cache**. -/
theorem execute_forget (setup : Setup σ) (vm : VirtualMachine σ) (block : CompiledBlock) :
    (vm.forget.execute setup block).1 = (vm.execute setup block).1 ∧
      (vm.forget.execute setup block).2.forget = (vm.execute setup block).2.forget := by
  have hexecute : vm.forget.execute setup block = _ := execute_withCache setup vm block .empty
  rw [hexecute]
  exact ⟨rfl, rfl⟩

/-- The block at a guest address, if the one in the cache is the one that would be compiled. -/
theorem blockAt_of_cached (h : ∀ block, vm.cache.find? start = some block →
    vm.compile setup start = .ok block) :
    (∃ e, vm.compile setup start = .error e ∧ vm.blockAt setup start = .error e) ∨
      ∃ block cache, vm.compile setup start = .ok block ∧
        vm.blockAt setup start = .ok (block, { vm with cache }) := by
  rw [blockAt]
  cases hfind : vm.cache.find? start with
  | some block => exact .inr ⟨block, vm.cache, h block hfind, rfl⟩
  | none =>
    cases hcompile : vm.compile setup start with
    | error e => exact .inl ⟨e, rfl, rfl⟩
    | ok block => exact .inr ⟨block, _, rfl, rfl⟩

/-- If the cached block is the one that would be compiled, **a run** is that of a machine without
cache. -/
theorem run_forget (h : ∀ block, vm.cache.find? vm.cpu.nextAddress = some block →
    vm.compile setup vm.cpu.nextAddress = .ok block) :
    (vm.forget.run setup).1 = (vm.run setup).1 ∧
      (vm.forget.run setup).2.forget = (vm.run setup).2.forget ∧
      vm.forget.runEvents setup = vm.runEvents setup := by
  have hcompile : vm.forget.compile setup = vm.compile setup := rfl
  have hnext : vm.forget.cpu.nextAddress = vm.cpu.nextAddress := rfl
  have hfresh := @blockAt_of_cached σ setup vm.forget vm.cpu.nextAddress fun _ hb => nomatch hb
  rw [hcompile] at hfresh
  rw [run, run, runEvents, runEvents, hnext]
  rcases blockAt_of_cached h with ⟨e, he, hblock⟩ | ⟨block, cache, hok, hblock⟩
  · obtain ⟨e', he', hblock'⟩ | ⟨block', cache', hok', -⟩ := hfresh
    · cases he.symm.trans he'
      rw [hblock, hblock']
      exact ⟨rfl, rfl, rfl⟩
    · cases he.symm.trans hok'
  · obtain ⟨e', he', -⟩ | ⟨block', cache', hok', hblock'⟩ := hfresh
    · cases hok.symm.trans he'
    · cases hok.symm.trans hok'
      -- the same block, executed on machines that differ in their caches only
      obtain ⟨houtcome, hleft⟩ := execute_forget setup { vm with cache } block
      obtain ⟨houtcome', hleft'⟩ := execute_forget setup { vm with cache := cache' } block
      rw [hblock, hblock']
      exact ⟨houtcome'.symm.trans houtcome, hleft'.symm.trans hleft, rfl⟩

end VirtualMachine

namespace Workbench

variable {w : Workbench σ}

/-- The workbench with an empty cache. -/
def forget (w : Workbench σ) : Workbench σ := { w with vm := w.vm.forget }

/-- What can be seen of a history on a machine that **keeps no cache**. -/
def outcomesAfresh (setup : Setup σ) : Workbench σ → List Action → List (Outcome σ)
  | _, [] => []
  | w, action :: actions =>
    w.forget.outcome setup action :: outcomesAfresh setup (w.forget.next setup action) actions

/-- Whether every change of a byte of the window is **announced** before the next run, by an
invalidation of a range that contains it. -/
def Announced (setup : Setup σ) (w : Workbench σ) (actions : List Action) : Prop :=
  ∀ before action between rest, actions = before ++ action :: (between ++ .run :: rest) →
    ∀ a, ((w.after setup before).next setup action).window.get a ≠
        (w.after setup before).window.get a →
      ∃ r, .invalidate r ∈ between ∧ r.contains a = true

/-- The first operation of a history that announces its changes. -/
theorem Announced.cons {action : Action} {actions : List Action}
    (hfirst : ∀ a, (w.next setup action).window.get a ≠ w.window.get a →
      ∀ between rest, actions = between ++ .run :: rest →
        ∃ r, .invalidate r ∈ between ∧ r.contains a = true)
    (hrest : (w.next setup action).Announced setup actions) :
    w.Announced setup (action :: actions) := by
  rintro before changing between rest hsplit a hchange
  rcases List.cons_eq_append_iff.mp hsplit with ⟨rfl, htail⟩ | ⟨before, rfl, hactions⟩
  · obtain ⟨rfl, rfl⟩ := List.cons.inj htail
    exact hfirst a hchange between rest rfl
  · exact hrest before changing between rest hactions a hchange

/-- **A cached block** is the one that would be compiled now, when a history that announces its
changes comes to a run. -/
theorem compile_of_cached (hempty : w.vm.cache = .empty) {done rest : List Action}
    (hannounced : w.Announced setup (done ++ .run :: rest)) {start : Address}
    {block : CompiledBlock}
    (h : (w.after setup done).vm.cache.find? start = some block) :
    (w.after setup done).vm.compile setup start = .ok block := by
  obtain ⟨before, since, rfl, hcompile, hsince⟩ :=
    provenance_cached hempty (Cache.mem_of_find? h)
  refine VirtualMachine.compile_of_get_eq hcompile fun a ha => ?_
  by_contra hne
  rw [after_append] at hne
  -- the change has been announced, by a range that would have dropped the block
  obtain ⟨pre, action, between, rfl, hchange⟩ := exists_change hne
  obtain ⟨r, hr, hcontains⟩ := hannounced (before ++ pre) action between rest (by simp) a
    (by rwa [after_append])
  have hoverlaps : block.range.overlaps r = true := Range.overlaps_iff.mpr ⟨a, ha, hcontains⟩
  rw [hsince r (by simp [hr])] at hoverlaps
  exact Bool.false_ne_true hoverlaps

/-- Two machines that return the same, do the same to guest memory and end the same but for their
caches. -/
theorem uncounted_outcome_eq {u : Workbench σ} {action : Action}
    (hanswer : (u.perform setup action).1.uncounted = (w.perform setup action).1.uncounted)
    (hnext : (u.next setup action).forget = (w.next setup action).forget)
    (hevents : u.events setup action = w.events setup action) :
    (u.outcome setup action).uncounted = (w.outcome setup action).uncounted := by
  have hcpu : (u.next setup action).vm.cpu = (w.next setup action).vm.cpu :=
    congrArg (·.vm.cpu) hnext
  have hmemory : (u.next setup action).vm.memory = (w.next setup action).vm.memory :=
    congrArg (·.vm.memory) hnext
  have hcycles : (u.next setup action).vm.contextCycles = (w.next setup action).vm.contextCycles :=
    congrArg (·.vm.contextCycles) hnext
  simp only [outcome, Outcome.uncounted, hanswer, hcpu, hmemory, hcycles, hevents]

/-- **One operation** on a machine without cache, provided that a run finds cached only what it
would compile. -/
theorem outcome_forget {action : Action}
    (h : action = .run → ∀ block, w.vm.cache.find? w.vm.cpu.nextAddress = some block →
      w.vm.compile setup w.vm.cpu.nextAddress = .ok block) :
    (w.forget.outcome setup action).uncounted = (w.outcome setup action).uncounted ∧
      (w.forget.next setup action).forget = (w.next setup action).forget := by
  suffices hsame : (w.forget.perform setup action).1.uncounted =
        (w.perform setup action).1.uncounted ∧
      (w.forget.next setup action).forget = (w.next setup action).forget ∧
      w.forget.events setup action = w.events setup action from
    ⟨uncounted_outcome_eq hsame.1 hsame.2.1 hsame.2.2, hsame.2.1⟩
  cases action with
  | run =>
    obtain ⟨houtcome, hforget, hevents⟩ := VirtualMachine.run_forget (h rfl)
    exact ⟨congrArg Answer.ran houtcome, congrArg (Workbench.mk · w.held) hforget, hevents⟩
  | execute number =>
    have hheld : w.forget.held = w.held := rfl
    rw [next, next, perform, perform, events, events, hheld]
    cases w.held[number]? with
    | some block =>
      obtain ⟨houtcome, hforget⟩ := VirtualMachine.execute_forget setup w.vm block
      exact ⟨congrArg Answer.ran houtcome, congrArg (Workbench.mk · w.held) hforget, rfl⟩
    | none => exact ⟨rfl, rfl, rfl⟩
  | load a data =>
    have hmemory : w.forget.vm.memory = w.vm.memory := rfl
    rw [next, next, perform, perform, VirtualMachine.load?, VirtualMachine.load?, hmemory]
    cases w.vm.memory.window.load? a data with
    | some window => exact ⟨rfl, rfl, rfl⟩
    | none => exact ⟨rfl, rfl, rfl⟩
  | _ => exact ⟨rfl, rfl, rfl⟩

/-- **The cache is coherent.** However a machine is used, by setting its processor, running,
compiling, executing compiled blocks, writing to its window and invalidating ranges in any order, as
long as every change of a byte of the window is announced before the next run: each operation
returns the same, leaves the same guest processor, guest memory and clock count, and accesses guest
memory and calls handlers in the same way as on a machine that keeps no cache and compiles whatever
it runs from the window as it is. Only the number of blocks that an invalidation drops may
differ. -/
theorem outcomes_eq_afresh {memory : Bridge.GuestMemory σ} {actions : List Action}
    (hannounced : (ofMemory memory).Announced setup actions) :
    ((ofMemory memory).outcomes setup actions).map Outcome.uncounted =
      ((ofMemory memory).outcomesAfresh setup actions).map Outcome.uncounted := by
  suffices hrest : ∀ done rest, actions = done ++ rest → ∀ u : Workbench σ,
      u.forget = ((ofMemory memory).after setup done).forget →
        (((ofMemory memory).after setup done).outcomes setup rest).map Outcome.uncounted =
          (u.outcomesAfresh setup rest).map Outcome.uncounted from hrest [] actions rfl _ rfl
  intro done rest
  induction rest generalizing done with
  | nil => exact fun _ _ _ => rfl
  | cons action rest ih =>
    rintro rfl u hforget
    obtain ⟨houtcome, hnext⟩ := @outcome_forget σ setup ((ofMemory memory).after setup done) action
      fun hrun block hblock => compile_of_cached rfl (hrun ▸ hannounced) hblock
    rw [outcomes, outcomesAfresh, List.map_cons, List.map_cons, hforget, houtcome, ← after_snoc]
    congr 1
    exact ih (done ++ [action]) (by simp) _ (by rw [hnext, after_snoc])

/-- The whole of guest memory. -/
def wholeMemory : Range := ⟨0, 0x10000, by decide, by decide⟩

theorem contains_wholeMemory (a : Address) : wholeMemory.contains a = true :=
  Range.contains_iff.mpr ⟨Nat.zero_le _, a.isLt⟩

/-- A program is run, then another one is written over it and run. -/
def rewriting : List Action :=
  [.run, .load 0 [0x3C, 0x76], .invalidate wholeMemory, .setCpu .initial, .run]

/-- An invalidation in front of the first run stands in front of every run. -/
theorem invalidate_mem_of_run_notMem (pre : List Action) {more between rest : List Action}
    {r : Range} (hpre : .run ∉ pre)
    (h : pre ++ .invalidate r :: more = between ++ .run :: rest) : .invalidate r ∈ between := by
  induction pre generalizing between with
  | nil =>
    cases between with
    | nil => cases h
    | cons action between =>
      obtain ⟨rfl, -⟩ := List.cons.inj h
      exact List.mem_cons_self
  | cons action pre ih =>
    cases between with
    | nil =>
      obtain ⟨rfl, -⟩ := List.cons.inj h
      exact absurd List.mem_cons_self hpre
    | cons action' between =>
      obtain ⟨-, htail⟩ := List.cons.inj h
      exact List.mem_cons_of_mem _ (ih (fun hrun => hpre (List.mem_cons_of_mem _ hrun)) htail)

/-- Whatever the first program does to memory, the invalidation covers it. -/
theorem announced_rewriting (setup : Setup σ) (w : Workbench σ) :
    w.Announced setup rewriting := by
  refine .cons (fun a _ between rest h => ?_) (.cons (fun a _ between rest h => ?_)
    (.cons (fun a h => absurd rfl h) (.cons (fun a h => absurd rfl h)
      (.cons (fun a _ between rest h => ?_) fun before _ _ _ h => ?_))))
  · exact ⟨wholeMemory, invalidate_mem_of_run_notMem [_] (by simp) h, contains_wholeMemory a⟩
  · exact ⟨wholeMemory, invalidate_mem_of_run_notMem [] (by simp) h, contains_wholeMemory a⟩
  · exact absurd h (by simp)
  · exact absurd h (by simp)

theorem outcomes_eq_afresh_rewriting :
    (ofMemory (Demo.memory Demo.program)).Announced (Demo.setupWith 64) rewriting ∧
      ((ofMemory (Demo.memory Demo.program)).outcomes (Demo.setupWith 64) rewriting).map
          Outcome.uncounted =
        ((ofMemory (Demo.memory Demo.program)).outcomesAfresh (Demo.setupWith 64) rewriting).map
          Outcome.uncounted :=
  ⟨announced_rewriting _ _, outcomes_eq_afresh (announced_rewriting _ _)⟩

end Workbench

end Dynarec
