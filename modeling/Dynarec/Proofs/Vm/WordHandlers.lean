import Dynarec.Bridge.Flat
import Dynarec.Proofs.Vm.Residue
import Dynarec.Proofs.Vm.Simulation

/-!
# Words served by bytes

An interface that has handlers for bytes only serves words **by bytes**, low byte first. For flat
memory this cannot be told from handlers for words: a machine around the one interface does what a
machine around the other does, operation by operation, and its recorder has the requests of the
other one with each request for a word replaced by the two requests for its bytes
(`outcomes_byBytes`).
-/

namespace Dynarec

open Bridge (GuestMemory MemoryInterface Recorder Request Residue flat)
open Codegen (Config)
open Guest (Window)

/-! ### Requests -/

namespace Bridge

/-- The requests **for bytes** that a request comes down to. -/
def Request.byBytes : Request → List Request
  | .read16 a => [.read8 a, .read8 (a + 1)]
  | .write16 a v => [.write8 a (v.extractLsb' 0 8), .write8 (a + 1) (v.extractLsb' 8 8)]
  | request => [request]

/-- The recorder with each request for a word replaced by those **for its bytes**, which come at the
same clock count. -/
def Recorder.byBytes (log : Recorder) : Recorder :=
  log.flatMap fun entry => (entry.1.byBytes.map (·, entry.2)).toArray

/-- A request that is recorded leads to the requests for its bytes. -/
theorem Recorder.byBytes_push (log : Recorder) (request : Request) (cycles : HostWord) :
    Recorder.byBytes (log.push (request, cycles)) =
      Recorder.byBytes log ++ (request.byBytes.map (·, cycles)).toArray := by
  rw [Recorder.byBytes, Array.flatMap_push]
  rfl

/-- What flat memory **records** when it serves words by bytes. -/
theorem device_serve_byBytes (protection : Bool) (request : Request) (cycles : HostWord)
    (m : GuestMemory Recorder) :
    ((flat protection).byBytes.serve request cycles m).2.device =
      m.device ++ (request.byBytes.map (·, cycles)).toArray := by
  have hpush : ∀ x y, (m.device.push x).push y = m.device ++ #[x, y] := by
    intro x y
    rw [Array.push_eq_append, Array.push_eq_append, Array.append_assoc]
    rfl
  cases request with
  | read16 a => exact hpush _ _
  | write16 a v => exact hpush _ _
  | _ => exact Array.push_eq_append

/-- Flat memory **agrees** with flat memory that serves words by bytes, whatever either of them
leaves in registers and flags. -/
theorem flat_agrees_byBytes (protection : Bool)
    (residue residue' : Request → HostWord → GuestMemory Recorder → Residue) :
    MemoryInterface.Agrees { flat protection with residue }
      { (flat protection).byBytes with residue := residue' }
      fun log log' => log' = log.byBytes where
  result request cycles m e _ := by cases request <;> rfl
  window request cycles m e _ := by cases request <;> rfl
  device request cycles m e h := by
    have hwords : (MemoryInterface.serve { flat protection with residue } request cycles
        m).2.device = m.device.push (request, cycles) := by
      cases request <;> rfl
    have hbytes : (MemoryInterface.serve { (flat protection).byBytes with residue := residue' }
        request cycles (m.withDevice e)).2.device =
          ((flat protection).byBytes.serve request cycles (m.withDevice e)).2.device := by
      cases request <;> rfl
    rw [hwords, hbytes, device_serve_byBytes, Recorder.byBytes_push, ← h]
    rfl

end Bridge

/-! ### Machines with corresponding devices -/

section Corresponding

variable {σ τ : Type}

/-- The outcome with the device replaced by the one that **corresponds** to it. -/
def Outcome.mapDevice (f : σ → τ) (o : Outcome σ) : Outcome τ :=
  ⟨o.answer, o.cpu, o.memory.withDevice (f o.memory.device), o.contextCycles, o.events⟩

/-- If interfaces agree whenever the devices **correspond**, the outcomes of the second machine are
those of the first with the corresponding devices. -/
theorem Workbench.outcomes_mapDevice {setup : Setup σ} {j : MemoryInterface τ} {f : σ → τ}
    (hsound : setup.env.Sound) (hagree : setup.interface.Agrees j fun d e => e = f d)
    (memory : GuestMemory σ) (history : List Action) :
    (ofMemory (memory.withDevice (f memory.device))).outcomes (setup.withInterface j) history =
      ((ofMemory memory).outcomes setup history).map (·.mapDevice f) := by
  suffices hrest : ∀ done rest, history = done ++ rest →
      (((ofMemory memory).after setup done).withDevice
          (f ((ofMemory memory).after setup done).vm.memory.device)).outcomes
          (setup.withInterface j) rest =
        (((ofMemory memory).after setup done).outcomes setup rest).map (·.mapDevice f) from
    hrest [] history rfl
  -- what has been done tells where the blocks come from that are still executed
  intro done rest
  induction rest generalizing done with
  | nil => exact fun _ => rfl
  | cons action rest ih =>
    rintro rfl
    obtain ⟨e', hperform, rfl, hevents⟩ :=
      perform_withDevice hsound hagree (fun block hblock => belongsTo_of_block? rfl rfl hblock)
        (rfl : _ = f ((ofMemory memory).after setup done).vm.memory.device)
    have hrest := ih (done ++ [action]) (by simp)
    rw [after_snoc] at hrest
    rw [outcomes, outcomes, List.map_cons, outcome, next, hperform, hevents]
    exact congrArg (List.cons _) hrest

end Corresponding

/-- What can be seen of **a run**. -/
theorem Workbench.outcomes_run {σ : Type} (setup : Setup σ) (w : Workbench σ) :
    w.outcomes setup [.run] =
      [⟨.ran (w.vm.run setup).1, (w.vm.run setup).2.cpu, (w.vm.run setup).2.memory,
        (w.vm.run setup).2.contextCycles, w.vm.runEvents setup⟩] := rfl

/-! ### Flat memory -/

/-- The outcome with requests for words replaced by those **for their bytes**. -/
def Outcome.byBytes (o : Outcome Recorder) : Outcome Recorder := o.mapDevice Recorder.byBytes

/-- **Handlers for words are not needed.** Take two machines around flat memory with the same window
and nothing recorded. The one has handlers for words, which serve a word at once; the other one
serves words by bytes. In both, protection keeps each byte of the lower half as it is. However they
are used, by setting the guest processor, running, compiling, executing compiled blocks, writing to
the window and invalidating ranges in any order, each operation returns the same, leaves the same
guest processor, window and clock count, and makes the same calls at the same clock counts. What the
second machine's recorder has is what the first one's has, with each request for a word replaced by
requests for its two bytes, the low byte first, the high byte at the next address modulo `2 ^ 16`,
and both at the clock count of the word. -/
theorem Workbench.outcomes_byBytes {env : Machine.Environment} (hsound : env.Sound)
    (config : Config) (protection : Bool)
    (residue residue' : Request → HostWord → GuestMemory Recorder → Residue)
    (window : Window) (history : List Action) :
    (ofMemory ⟨window, #[]⟩).outcomes
        ⟨env, { (flat protection).byBytes with residue := residue' }, config⟩ history =
      ((ofMemory ⟨window, #[]⟩).outcomes ⟨env, { flat protection with residue }, config⟩
        history).map Outcome.byBytes :=
  @outcomes_mapDevice _ _ ⟨env, { flat protection with residue }, config⟩ _ _ hsound
    (Bridge.flat_agrees_byBytes protection residue residue') ⟨window, #[]⟩ history

/-- A program that loads BC with `0x1234` and SP with `0x8001`, pushes BC and pops DE. -/
def Demo.straddling : List Byte := [0x01, 0x34, 0x12, 0x31, 0x01, 0x80, 0xC5, 0xD1, 0x76]

/-- The word that is pushed goes across the upper end of the protected half. -/
theorem Workbench.outcomes_byBytes_straddling :
    ((ofMemory ⟨Window.zeros.store 0 Demo.straddling, #[]⟩).outcomes
        ⟨Demo.hostEnvironment, (flat true).byBytes, ⟨64, false⟩⟩ [.run]).map
        (fun o => (o.cpu.de, o.memory.device)) =
      [(0x1200, #[(.write8 0x7FFF 0x34, 40), (.write8 0x8000 0x12, 40), (.read8 0x7FFF, 52),
        (.read8 0x8000, 52)])] := by
  have hbytes := outcomes_byBytes Demo.hostEnvironment_sound ⟨64, false⟩ true
    (flat true).residue (flat true).residue (Window.zeros.store 0 Demo.straddling) [.run]
  obtain ⟨-, -, hrun⟩ := (@Simulates.fresh _ ⟨Demo.hostEnvironment, flat true, ⟨64, false⟩⟩
    .initial ⟨Window.zeros.store 0 Demo.straddling, #[]⟩ 0).run Demo.hostEnvironment_sound
  refine (congrArg (List.map _) hbytes).trans ?_
  rw [outcomes_run, List.map_singleton, List.map_singleton, Outcome.byBytes, Outcome.mapDevice]
  rw [ofMemory, VirtualMachine.ofMemory, hrun.cpu, hrun.memory]
  decide +kernel

end Dynarec
