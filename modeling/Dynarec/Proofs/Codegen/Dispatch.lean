import Dynarec.Proofs.Codegen.Compile
import Dynarec.Proofs.Codegen.Stack
import Dynarec.Proofs.Interpreter.Accesses
import Dynarec.Proofs.Machine.FlagFree
import Dynarec.Proofs.Vm.Execution

/-!
# Dispatch of guest accesses

The code of an access chooses between the window and a handler, by comparing the address in `rsi`
or, for an address that is known while compiling, once and for all. The main result is that both
codes do what `Access.perform` says, with one access to the window or one call of a handler, and
leave the machine in the same state but for the host flags (`access_dispatch`).
-/

namespace Dynarec

open Assembly (Code CodeStream)
open Bridge (MemoryInterface Recorder flat)
open Host (Memory Register Registers)
open Machine (Changes Environment Event Runs State Yields)

variable {σ : Type}

namespace Codegen

/-! ### Executing a piece of code -/

/-- Whether a piece of code, assembled with a return behind it, **executes** from one state to
another with the given events. -/
def Executes (env : Environment) (i : MemoryInterface σ) (c : Code) (s : State σ)
    (es : List Event) (t : State σ) : Prop :=
  ∃ stream code, CodeStream.empty.extend (c ++ .instruction .ret) = .ok stream ∧
    stream.finish = .ok code ∧ Machine.run env i (.ofCode code.toList) s = .ok t ∧
    Machine.events env (Machine.trace env i (.ofCode code.toList) s).1 = es

variable {env : Environment} {i : MemoryInterface σ} {g : Interpreter.State σ} {s t : State σ}

/-- Code that is gone through with nothing on the host stack at its end executes. -/
theorem executes_of_yields {c : Code} {n : Nat} (htame : c.Tame n) {es : List Event}
    (h : Yields env i c s es .through t) (hbalanced : t.isBalanced env = true)
    (hstack : t.stack = []) : Executes env i c s es t := by
  have hret : (Code.instruction .ret).Tame 15 := ⟨rfl, rfl, of_decide_eq_true rfl⟩
  have hfits := (htame.append hret).layout.1
  obtain ⟨stream, hextend, hdata, hpatches⟩ := extend_empty hfits
  have hleave : Yields env i (.instruction .ret) t [] .returned t :=
    .leave (.nil t) hbalanced hstack
  obtain ⟨hrun, hevents⟩ := (h.append_quiet_right hleave).trace hfits
    (p := .ofCode stream.data.toList) hdata
  refine ⟨stream, stream.data, hextend, ?_, hrun, hevents⟩
  rw [CodeStream.finish, hpatches]
  rfl

/-! ### Emitted code -/

/-- **The path of an access** does not read the flags. -/
theorem Access.isFlagFree_path (access : Access) (layout : Bridge.Layout) (fast : Bool) :
    (if fast then access.fastPath layout else access.slowPath layout).all Machine.isFlagFree =
      true := by
  obtain ⟨_ | _, _ | _⟩ := access <;> cases fast <;> rfl

/-- **The code of an access** to an address in `rsi`. -/
theorem yields_dynamic (access : Access) {a : Address}
    (ha : s.registers.get address = a.setWidth 64) {es : List Event}
    (h : Runs env i
      (if access.isFast a then access.fastPath env.layout else access.slowPath env.layout) s es t) :
    ∃ f, Yields env i (access.code env.layout .dynamic) s es .through (t.setFlags f) := by
  obtain ⟨u, htests, hchanges⟩ := Codegen.tests_dynamic env i access ha
  -- the comparisons change the flags
  obtain ⟨f, hpath⟩ := h.setFlags u.flags (access.isFlagFree_path env.layout _)
  rw [← hchanges.eq_setFlags] at hpath
  refine ⟨f, ?_⟩
  cases hfast : access.isFast a with
  | true =>
    rw [hfast] at htests hpath
    exact .fast _ htests (.straight hpath)
  | false =>
    rw [hfast] at htests hpath
    exact .slow _ htests (.straight hpath)

/-- **The code of an access** to an address that is known while compiling, whatever is in `rsi`. -/
theorem yields_constant (access : Access) {a : Address}
    (ha : s.registers.get address = a.setWidth 64) (w : HostWord) {es : List Event}
    (h : Runs env i
      (if access.isFast a then access.fastPath env.layout else access.slowPath env.layout) s es t) :
    Yields env i (access.code env.layout (.constant a)) (s.setRegister address w) es .through
      t := by
  have hmov : Machine.execute env i (s.setRegister address w)
      (.mov .dword address (.immediate (a.setWidth 64))) = .ok (.next, s) := by
    have hwidth : ((a.setWidth 64).setWidth 32).setWidth 64 = a.setWidth 64 := by simp
    have hregisters : (s.registers.set address w).set address (a.setWidth 64) = s.registers := by
      rw [Machine.set_set, ← ha, Machine.set_get]
    have hstate : (s.setRegister address w).setRegister address (a.setWidth 64) = s := by
      rw [State.setRegister, State.setRegister, hregisters]
    rw [← hwidth] at hstate
    exact congrArg (fun t => Except.ok (Machine.Flow.next, t)) hstate
  exact .straight (.quiet hmov rfl h)

/-- **Dispatch of accesses.** Take an access of any width and direction to any guest address, which
is in `rsi`, with the value to write in the low bits of `rdx`, in a state that stands for a state of
the guest. The emitted code executes. If the address is in the documented range it accesses the
window once; otherwise it calls the handler for the width and direction once, with the address and
the value. The guest registers, the cycle counter, the window and the device are as `Access.perform`
says, and a read leaves its result zero-extended in `rax`. The code for an address that is known
while compiling leads to the same state, but for the host flags, whatever was in `rsi`.

If the memory interface is flat, the path makes no difference to the result and the window; a word
access is a byte access to the address and one to the next address modulo `2 ^ 16`; and a word that
is written is read again, while no other byte changes. -/
theorem access_dispatch (hsound : env.Sound) (h : Mirrors env g s) (access : Access) {a : Address}
    {v : BitVec 16} (ha : s.registers.get address = a.setWidth 64)
    (hv : (s.registers.get value).setWidth 16 = v) :
    (∃ t f, Executes env i (access.code env.layout .dynamic) s [access.event a v g.cycles] t ∧
      Mirrors env (access.perform i a v g).2 t ∧
      (access.write = false →
        t.registers.get result = (access.perform i a v g).1.setWidth 64) ∧
      ∀ w, Executes env i (access.code env.layout (.constant a)) (s.setRegister address w)
        [access.event a v g.cycles] (t.setFlags f)) ∧
    (i.IsFlat →
      ((access.perform i a v g).1 = (access.inWindow a v g.memory.window).1 ∧
        (access.perform i a v g).2.memory.window = (access.inWindow a v g.memory.window).2) ∧
      ((Access.perform i ⟨true, access.write⟩ a v g).1 =
          (Access.performByBytes i access.write a v g).1 ∧
        (Access.perform i ⟨true, access.write⟩ a v g).2.withDevice () =
          (Access.performByBytes i access.write a v g).2.withDevice ()) ∧
      ∀ u,
        (Access.perform i ⟨true, false⟩ a u (Access.perform i ⟨true, true⟩ a v g).2).1 = v ∧
          ∀ b, b ≠ a → b ≠ a + 1 →
            (Access.perform i ⟨true, false⟩ a u
              (Access.perform i ⟨true, true⟩ a v g).2).2.memory.window.get b =
                g.memory.window.get b) := by
  refine ⟨?_, fun hflat => ⟨⟨?_, ?_⟩, ?_, fun u => ?_⟩⟩
  · -- both codes take the same path, and only the tests of the dynamic one touch the flags
    obtain ⟨t, hpath, hmirrors, hresult⟩ := runs_path (i := i) hsound h access ha hv
    obtain ⟨f, hdynamic⟩ := yields_dynamic access ha hpath
    have hmirrors' := hmirrors.free ((Changes.refl [] t).setFlags f) (by decide)
    refine ⟨t.setFlags f, t.flags, ?_, hmirrors', hresult, fun w => ?_⟩
    · exact executes_of_yields (tame_access env.layout access .dynamic) hdynamic
        hmirrors'.isBalanced hmirrors'.stack
    · exact executes_of_yields (tame_access env.layout access (.constant a))
        (yields_constant access ha w hpath) hmirrors.isBalanced hmirrors.stack
  · exact (Access.perform_flat hflat a v g access).1
  · exact Access.window_perform hflat a v g access
  · exact Access.perform_word hflat a v g access.write
  · exact Access.perform_read_written hflat a v g u

/-- A machine that is about to write `0x1234` to an address whose two bytes are on different sides
of the upper bound. -/
def storing : State Recorder :=
  ((Cpu.initial.enter Demo.hostEnvironment 0 ⟨.zeros, #[]⟩).setRegister address
    0xFDFF).setRegister value 0x1234

/-- The handler is called, and the word can be read again. -/
theorem access_dispatch_storing :
    ∃ t f, Executes Demo.hostEnvironment (flat false)
        (write16 Demo.hostEnvironment.layout .dynamic) storing
        [.call (.write16 0xFDFF 0x1234) 0] t ∧
      Executes Demo.hostEnvironment (flat false)
        (write16 Demo.hostEnvironment.layout (.constant 0xFDFF))
        (storing.setRegister address 0) [.call (.write16 0xFDFF 0x1234) 0] (t.setFlags f) ∧
      t.memory.window.getWord 0xFDFF = 0x1234 := by
  have hmirrors : Mirrors Demo.hostEnvironment
      (.ofCpu .initial 0 ⟨.zeros, #[]⟩) storing :=
    (mirrors_enter _ Cpu.initial 0 ⟨.zeros, #[]⟩).free
      (((Changes.refl [address, value] _).setRegister (by decide) _).setRegister (by decide) _)
      (by decide)
  obtain ⟨⟨t, f, hdynamic, ht, -, hconstant⟩, hflat⟩ := access_dispatch (i := flat false)
    Demo.hostEnvironment_sound hmirrors ⟨true, true⟩ (a := 0xFDFF) (v := 0x1234) rfl rfl
  obtain ⟨⟨-, hwindow⟩, -⟩ := hflat Bridge.isFlat_flat
  refine ⟨t, f, hdynamic, hconstant 0, ?_⟩
  rw [ht.memory, hwindow]
  exact Guest.Window.getWord_setWord _ _ _

end Codegen

end Dynarec
