import Dynarec.Proofs.Interpreter.Agreement
import Dynarec.Proofs.Vm.History

/-!
# What handlers leave behind

A handler may leave anything in the registers and flags that a callee need not preserve, and in the
bits of `rax` above its result. None of it gets into the guest: two machines whose interfaces agree,
that is, serve every request in the same way, cannot be told apart by whatever is done with them
(`residue_unobservable`).
-/

namespace Dynarec

open Bridge (GuestMemory MemoryInterface)
open Codegen (CompiledBlock)
open Guest (Ending Image Placed)

variable {σ τ : Type}

/-- The same machine around **another interface**. -/
def Setup.withInterface (setup : Setup σ) (j : MemoryInterface τ) : Setup τ :=
  ⟨setup.env, j, setup.config⟩

/-- The machine with **another device** behind the window. -/
def VirtualMachine.withDevice (vm : VirtualMachine σ) (e : τ) : VirtualMachine τ :=
  { vm with memory := vm.memory.withDevice e }

/-- The workbench with **another device** behind the window. -/
def Workbench.withDevice (w : Workbench σ) (e : τ) : Workbench τ := ⟨w.vm.withDevice e, w.held⟩

/-- Two outcomes that **cannot be told apart**: all that can be seen is the same, and the devices
are related. -/
structure Outcome.Alike (related : σ → τ → Prop) (o : Outcome σ) (o' : Outcome τ) : Prop where
  answer : o'.answer = o.answer
  cpu : o'.cpu = o.cpu
  window : o'.memory.window = o.memory.window
  device : related o.memory.device o'.memory.device
  contextCycles : o'.contextCycles = o.contextCycles
  events : o'.events = o.events

section Agree

variable {setup : Setup σ} {j : MemoryInterface τ} {related : σ → τ → Prop}

/-! ### Blocks -/

/-- **Looking up a block** does not depend on the device. -/
theorem VirtualMachine.blockAt_withDevice (setup : Setup σ) (j : MemoryInterface τ)
    (vm : VirtualMachine σ) (e : τ) (start : Address) :
    (vm.withDevice e).blockAt (setup.withInterface j) start =
      (vm.blockAt setup start).map fun found => (found.1, found.2.withDevice e) := by
  have hfind : (vm.withDevice e).cache.find? start = vm.cache.find? start := rfl
  have hcompile : (vm.withDevice e).compile (setup.withInterface j) start =
      vm.compile setup start := rfl
  rw [blockAt, blockAt, hfind, hcompile]
  cases vm.cache.find? start with
  | some block => rfl
  | none =>
    cases vm.compile setup start with
    | error e => rfl
    | ok block => rfl

variable (hsound : setup.env.Sound) (hagree : setup.interface.Agrees j related)

include hsound hagree

/-- **Executing a block** does the same on both machines. -/
theorem VirtualMachine.execute_withDevice {image : Image} {start : Address}
    {listing : List Placed} {ending : Ending} {block : CompiledBlock}
    (h : block.BelongsTo setup.env.layout image start listing ending) (vm : VirtualMachine σ)
    {e : τ} (he : related vm.memory.device e) :
    (∃ e', (vm.withDevice e).execute (setup.withInterface j) block =
        ((vm.execute setup block).1, (vm.execute setup block).2.withDevice e') ∧
      related (vm.execute setup block).2.memory.device e') ∧
      (vm.withDevice e).executeEvents (setup.withInterface j) block =
        vm.executeEvents setup block := by
  obtain ⟨hexecute, hevents⟩ := execute_of_belongsTo hsound h vm
  obtain ⟨hexecute', hevents'⟩ :=
    @execute_of_belongsTo τ (setup.withInterface j) block start hsound image listing ending h
      (vm.withDevice e)
  obtain ⟨⟨e', hrun, he'⟩, hdemands⟩ :=
    hagree.runBlock vm.entry he (BitVec.ofNat 16 ending.cursor) listing
  have hentry : (vm.withDevice e).entry = vm.entry.withDevice e := rfl
  have hinterface : (setup.withInterface j).interface = j := rfl
  rw [hentry, hinterface, hrun] at hexecute'
  rw [hentry, hinterface, hdemands] at hevents'
  rw [hexecute, hexecute', hevents, hevents']
  exact ⟨⟨e', rfl, he'⟩, rfl⟩

/-- **A run** does the same on both machines. -/
theorem VirtualMachine.run_withDevice {vm : VirtualMachine σ}
    (hblock : ∀ block vm', vm.blockAt setup vm.cpu.nextAddress = .ok (block, vm') →
      ∃ image start listing ending,
        block.BelongsTo setup.env.layout image start listing ending)
    {e : τ} (he : related vm.memory.device e) :
    (∃ e', (vm.withDevice e).run (setup.withInterface j) =
        ((vm.run setup).1, (vm.run setup).2.withDevice e') ∧
      related (vm.run setup).2.memory.device e') ∧
      (vm.withDevice e).runEvents (setup.withInterface j) = vm.runEvents setup := by
  have hlookup := blockAt_withDevice setup j vm e vm.cpu.nextAddress
  cases hfound : vm.blockAt setup vm.cpu.nextAddress with
  | error cause =>
    rw [hfound] at hlookup
    obtain ⟨hrun, hevents⟩ := run_of_blockAt_error hfound
    obtain ⟨hrun', hevents'⟩ := run_of_blockAt_error hlookup
    rw [hrun, hrun', hevents, hevents']
    exact ⟨⟨e, rfl, he⟩, rfl⟩
  | ok found =>
    obtain ⟨block, vm'⟩ := found
    rw [hfound] at hlookup
    obtain ⟨hrun, hevents⟩ := run_of_blockAt hfound
    obtain ⟨hrun', hevents'⟩ := run_of_blockAt hlookup
    obtain ⟨image, start, listing, ending, hbelongs⟩ := hblock block vm' hfound
    obtain ⟨⟨e', hexecute, he'⟩, hexecuteEvents⟩ :=
      execute_withDevice hsound hagree hbelongs vm he
    rw [hrun, hrun', hexecute, hevents, hevents', hexecuteEvents]
    exact ⟨⟨e', rfl, he'⟩, rfl⟩

/-! ### Histories -/

namespace Workbench

/-- **One operation** does the same on both machines. -/
theorem perform_withDevice {w : Workbench σ} {action : Action}
    (hblock : ∀ block, w.block? setup action = some block →
      ∃ image start listing ending,
        block.BelongsTo setup.env.layout image start listing ending)
    {e : τ} (he : related w.vm.memory.device e) :
    ∃ e', (w.withDevice e).perform (setup.withInterface j) action =
        ((w.perform setup action).1, (w.next setup action).withDevice e') ∧
      related (w.next setup action).vm.memory.device e' ∧
      (w.withDevice e).events (setup.withInterface j) action = w.events setup action := by
  have hvm : (w.withDevice e).vm = w.vm.withDevice e := rfl
  have hheld : (w.withDevice e).held = w.held := rfl
  cases action with
  | run =>
    obtain ⟨⟨e', hrun, he'⟩, hevents⟩ :=
      VirtualMachine.run_withDevice hsound hagree (fun block vm' hfound => hblock block (by
        rw [block?, hfound]
        rfl)) he
    refine ⟨e', ?_, he', hevents⟩
    rw [perform, hvm, hrun]
    rfl
  | execute number =>
    rw [next, perform, perform, events, events, hheld, hvm]
    cases hnumber : w.held[number]? with
    | none => exact ⟨e, rfl, he, rfl⟩
    | some block =>
      obtain ⟨image, start, listing, ending, hbelongs⟩ := hblock block hnumber
      obtain ⟨⟨e', hexecute, he'⟩, hevents⟩ :=
        VirtualMachine.execute_withDevice hsound hagree hbelongs w.vm he
      simp only [hexecute]
      exact ⟨e', rfl, he', hevents⟩
  | load a data =>
    have hload : (w.vm.withDevice e).load? a data = (w.vm.load? a data).map (·.withDevice e) := by
      rw [VirtualMachine.load?, VirtualMachine.load?, Option.map_map]
      rfl
    -- loading bytes to the window leaves the device alone
    have hdevice : ∀ vm, w.vm.load? a data = some vm → vm.memory.device = w.vm.memory.device := by
      rintro vm h
      obtain ⟨window, -, rfl⟩ := Option.map_eq_some_iff.mp h
      rfl
    rw [next, perform, perform, hvm, hload]
    cases hloaded : w.vm.load? a data with
    | none => exact ⟨e, rfl, he, rfl⟩
    | some vm => exact ⟨e, rfl, by rwa [hdevice vm hloaded], rfl⟩
  | _ => exact ⟨e, rfl, he, rfl⟩

/-- **Handlers leak nothing into the guest.** Take two machines whose interfaces agree under a
relation of their devices: they serve every request with the same result, the same changes to the
window, and related devices afterwards, and leave whatever they like in the registers and flags that
a callee need not preserve. Start them with the same window and related devices. However they are
used, by setting the guest processor, running, compiling, executing compiled blocks, writing to the
window and invalidating ranges in any order, each operation returns the same, leaves the same guest
processor, window and clock count, and accesses guest memory and calls handlers in the same way. -/
theorem residue_unobservable (memory : GuestMemory σ) {e : τ} (he : related memory.device e)
    (history : List Action) :
    List.Forall₂ (Outcome.Alike related) ((ofMemory memory).outcomes setup history)
      ((ofMemory (memory.withDevice e)).outcomes (setup.withInterface j) history) := by
  suffices hrest : ∀ done rest, history = done ++ rest → ∀ e,
      related ((ofMemory memory).after setup done).vm.memory.device e →
        List.Forall₂ (Outcome.Alike related)
          (((ofMemory memory).after setup done).outcomes setup rest)
          ((((ofMemory memory).after setup done).withDevice e).outcomes (setup.withInterface j)
            rest) from hrest [] history rfl e he
  -- the devices go apart on the way, all else stays together
  intro done rest
  induction rest generalizing done with
  | nil => exact fun _ _ _ => .nil
  | cons action rest ih =>
    rintro rfl e he
    obtain ⟨e', hperform, he', hevents⟩ :=
      perform_withDevice hsound hagree (fun block hblock => belongsTo_of_block? rfl rfl hblock) he
    have hnext : (((ofMemory memory).after setup done).withDevice e).next (setup.withInterface j)
        action = (((ofMemory memory).after setup done).next setup action).withDevice e' :=
      congrArg Prod.snd hperform
    rw [outcomes, outcomes]
    refine .cons ⟨congrArg Prod.fst hperform, ?_, ?_, ?_, ?_, hevents⟩ ?_
    · exact congrArg (·.vm.cpu) hnext
    · exact congrArg (·.vm.memory.window) hnext
    · exact (congrArg (·.vm.memory.device) hnext) ▸ he'
    · exact congrArg (·.vm.contextCycles) hnext
    · rw [hnext, ← after_snoc]
      exact ih (done ++ [action]) (by simp) e' (by rwa [after_snoc])

end Workbench

end Agree

/-! ### A noisy interface -/

/-- The demonstration interface, leaving garbage in whatever a callee need not preserve. -/
def Demo.noisy : MemoryInterface Messages :=
  { interface with residue := fun _ cycles _ => ⟨fun _ => ~~~cycles, .ofWord 0xFFFF⟩ }

/-- A read from the serial line and a write to it, with either interface. -/
theorem Workbench.residue_unobservable_noisy :
    Demo.interface.Agrees Demo.noisy Eq ∧
      List.Forall₂ (Outcome.Alike Eq)
        ((ofMemory (Demo.memory [0xF0, 0x01, 0xE0, 0x01, 0x76])).outcomes (Demo.setupWith 64)
          [.run, .run])
        ((ofMemory (Demo.memory [0xF0, 0x01, 0xE0, 0x01, 0x76])).outcomes
          ((Demo.setupWith 64).withInterface Demo.noisy) [.run, .run]) :=
  have hagree := Demo.interface.agrees_withResidue _
  ⟨hagree, @residue_unobservable _ _ (Demo.setupWith 64) _ _ Demo.hostEnvironment_sound hagree
    (Demo.memory [0xF0, 0x01, 0xE0, 0x01, 0x76]) _ rfl [.run, .run]⟩

end Dynarec
