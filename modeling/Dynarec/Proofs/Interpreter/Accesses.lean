import Dynarec.Bridge.Flat
import Dynarec.Proofs.Interpreter.Agreement

/-!
# Guest accesses

What an access to guest memory does, by width and direction (`Access.perform`): in the documented
range the window serves it, elsewhere the memory interface serves the request that it stands for.
Instructions access bytes and store words in this way (`perform_read8`).

If the interface is **flat**, that is, serves every request as the window would, it makes no
difference which of the two serves an access (`perform_flat`). A word is then its two bytes
(`perform_word`), also across the ends of the range and of memory, and a word that is written is
read again (`perform_read_written`).
-/

namespace Dynarec

open Bridge (GuestMemory MemoryInterface Request)
open Guest (Window)
open Interpreter (Demand)
open Machine (Event)

variable {σ : Type}

/-! ### Words in the window -/

theorem add_one_ne (a : Address) : a + 1 ≠ a := by bv_omega

namespace Guest.Window

/-- A word that is stored is **read again**, also at the last address, from where it goes on at the
first. -/
theorem getWord_setWord (w : Window) (a : Address) (v : BitVec 16) :
    (w.setWord a v).getWord a = v := by
  rw [getWord, setWord, get_set, if_pos rfl, get_set, if_neg (add_one_ne a).symm, get_set,
    if_pos rfl]
  exact (BitVec.extractLsb'_append_extractLsb'_eq_extractLsb' rfl).trans BitVec.extractLsb'_eq_self

/-- A word that is stored **changes no byte** but its own. -/
theorem get_setWord_of_ne (w : Window) {a b : Address} (v : BitVec 16) (hlow : b ≠ a)
    (hhigh : b ≠ a + 1) : (w.setWord a v).get b = w.get b := by
  rw [setWord, get_set, if_neg hhigh, get_set, if_neg hlow]

end Guest.Window

namespace Codegen.Access

/-! ### Accesses -/

/-- Whether the **window serves** an access to a guest address: reads below `0xFE00`, writes from
`0x8000` on, and words only if both bytes are below `0xFE00`. -/
def Served (access : Access) (a : Address) : Prop :=
  (access.write = true → 0x8000 ≤ a.toNat) ∧ a.toNat < if access.wide then 0xFDFF else 0xFE00

instance (access : Access) (a : Address) : Decidable (access.Served a) :=
  inferInstanceAs (Decidable (_ ∧ _))

/-- The **request** that an access stands for. Of the value, a byte write takes the low byte and a
read nothing. -/
def request (access : Access) (a : Address) (v : BitVec 16) : Request :=
  match access.wide, access.write with
  | false, false => .read8 a
  | false, true => .write8 a (v.setWidth 8)
  | true, false => .read16 a
  | true, true => .write16 a v

/-- An access to a **window**: the result, zero for a write, and the window afterwards. -/
def inWindow (access : Access) (a : Address) (v : BitVec 16) (w : Window) : BitVec 16 × Window :=
  match access.wide, access.write with
  | false, false => ((w.get a).setWidth 16, w)
  | false, true => (0, w.set a (v.setWidth 8))
  | true, false => (w.getWord a, w)
  | true, true => (0, w.setWord a v)

/-- **Performs an access**: in the window if that serves it, and otherwise by a request to the
memory interface. -/
def perform (i : MemoryInterface σ) (access : Access) (a : Address) (v : BitVec 16)
    (g : Interpreter.State σ) : BitVec 16 × Interpreter.State σ :=
  if access.Served a then
    let (v, window) := access.inWindow a v g.memory.window
    (v, g.setWindow window)
  else
    let (v, memory) := i.serve (access.request a v) g.cycles g.memory
    (v, g.afterRequest memory)

/-- An access that the window serves is one to the window. -/
theorem perform_of_served {access : Access} {a : Address} (h : access.Served a)
    (i : MemoryInterface σ) (v : BitVec 16) (g : Interpreter.State σ) :
    access.perform i a v g = ((access.inWindow a v g.memory.window).1,
      g.setWindow (access.inWindow a v g.memory.window).2) := if_pos h

/-- An access that the window does not serve is a request to the memory interface. -/
theorem perform_of_not_served {access : Access} {a : Address} (h : ¬ access.Served a)
    (i : MemoryInterface σ) (v : BitVec 16) (g : Interpreter.State σ) :
    access.perform i a v g = ((i.serve (access.request a v) g.cycles g.memory).1,
      g.afterRequest (i.serve (access.request a v) g.cycles g.memory).2) := if_neg h

/-- A word access as **two byte accesses**, the low byte first, the high byte at the next address
modulo `2 ^ 16`. -/
def performByBytes (i : MemoryInterface σ) (write : Bool) (a : Address) (v : BitVec 16)
    (g : Interpreter.State σ) : BitVec 16 × Interpreter.State σ :=
  let low := perform i ⟨false, write⟩ a ((v.extractLsb' 0 8).setWidth 16) g
  let high := perform i ⟨false, write⟩ (a + 1) ((v.extractLsb' 8 8).setWidth 16) low.2
  (high.1.setWidth 8 ++ low.1.setWidth 8, high.2)

/-- The window serves a word exactly if it serves **both bytes**, so that a word at the end of a
region is left to the handler. -/
theorem served_word_iff (write : Bool) (a : Address) :
    Served ⟨true, write⟩ a ↔ Served ⟨false, write⟩ a ∧ Served ⟨false, write⟩ (a + 1) := by
  have hlt := a.isLt
  have hnext : (a + 1).toNat = (a.toNat + 1) % 2 ^ 16 := BitVec.toNat_add a 1
  simp only [Served, if_true, Bool.false_eq_true, if_false]
  cases write <;> simp only [Bool.false_eq_true, false_implies, true_implies, true_and] <;> omega

/-- A word in a window is **its two bytes**, the low one first, in both directions. -/
theorem inWindow_word (write : Bool) (a : Address) (v : BitVec 16) (w : Window) :
    inWindow ⟨true, write⟩ a v w =
      let low := inWindow ⟨false, write⟩ a ((v.extractLsb' 0 8).setWidth 16) w
      let high := inWindow ⟨false, write⟩ (a + 1) ((v.extractLsb' 8 8).setWidth 16) low.2
      (high.1.setWidth 8 ++ low.1.setWidth 8, high.2) := by
  cases write with
  | false => simp [inWindow, Window.getWord]
  | true => simp [inWindow, Window.setWord]

/-- What an access does to guest memory: one **event**. -/
def event (access : Access) (a : Address) (v : BitVec 16) (cycles : HostWord) : Event :=
  if access.Served a then .direct access false a else .call (access.request a v) cycles

/-! ### Accesses of instructions -/

section Instructions

variable (i : MemoryInterface σ) (a : Address) (v : BitVec 16) (g : Interpreter.State σ)

/-- An access that **reads a byte** is what instructions do to read one. -/
theorem perform_read8 :
    perform i ⟨false, false⟩ a v g = ((g.read8 i a).1.setWidth 16, (g.read8 i a).2) := by
  have hserved : Served ⟨false, false⟩ a ↔ a.toNat < 0xFE00 := by simp [Served]
  rw [perform, Interpreter.State.read8]
  by_cases h : a.toNat < 0xFE00
  · rw [if_pos h, if_pos (hserved.mpr h)]
    rfl
  · rw [if_neg h, if_neg (mt hserved.mp h)]
    rfl

/-- An access that **writes a byte** is what instructions do to write one. -/
theorem perform_write8 :
    (perform i ⟨false, true⟩ a v g).2 = g.write8 i a (v.setWidth 8) := by
  have hserved : Served ⟨false, true⟩ a ↔ 0x8000 ≤ a.toNat ∧ a.toNat < 0xFE00 := by simp [Served]
  rw [perform, Interpreter.State.write8]
  by_cases h : 0x8000 ≤ a.toNat ∧ a.toNat < 0xFE00
  · rw [if_pos h, if_pos (hserved.mpr h)]
    rfl
  · rw [if_neg h, if_neg (mt hserved.mp h)]
    rfl

/-- An access that **writes a word** is what instructions do to write one. -/
theorem perform_write16 : (perform i ⟨true, true⟩ a v g).2 = g.write16 i a v := by
  have hserved : Served ⟨true, true⟩ a ↔ 0x8000 ≤ a.toNat ∧ a.toNat < 0xFDFF := by simp [Served]
  rw [perform, Interpreter.State.write16]
  by_cases h : 0x8000 ≤ a.toNat ∧ a.toNat < 0xFDFF
  · rw [if_pos h, if_pos (hserved.mpr h)]
    rfl
  · rw [if_neg h, if_neg (mt hserved.mp h)]
    rfl

end Instructions

variable {a : Address} {v : BitVec 16} (cycles : HostWord)

/-- The event of an access **meets a demand** for the same request: directly, if the window serves
both, and by a call otherwise. -/
theorem event_eq_demand {access : Access} {d : Demand}
    (haccess : d.access = some (access, false, a)) (hrequest : d.request = access.request a v)
    (hserved : d.isDirect = true ↔ access.Served a) :
    access.event a v cycles = d.event cycles := by
  rw [event]
  by_cases h : access.Served a
  · rw [if_pos h, Demand.event_of_isDirect (hserved.mpr h) haccess]
  · have hdirect : d.isDirect = false := Bool.eq_false_iff.mpr (mt hserved.mp h)
    rw [if_neg h, Demand.event_of_not_isDirect hdirect, hrequest]

theorem event_read8 : event ⟨false, false⟩ a v cycles = (Demand.read a).event cycles :=
  event_eq_demand cycles rfl rfl (by simp [Demand.isDirect, Served])

theorem event_write8 :
    event ⟨false, true⟩ a v cycles = (Demand.write a (v.setWidth 8)).event cycles :=
  event_eq_demand cycles rfl rfl (by simp [Demand.isDirect, Served])

theorem event_write16 : event ⟨true, true⟩ a v cycles = (Demand.writeWord a v).event cycles :=
  event_eq_demand cycles rfl rfl (by simp [Demand.isDirect, Served])

end Codegen.Access

/-! ### Flat interfaces -/

namespace Bridge

/-- Whether a memory interface is **flat**: it serves the request of every access as the window
would, whatever its device is. -/
def MemoryInterface.IsFlat (i : MemoryInterface σ) : Prop :=
  ∀ (access : Codegen.Access) a v cycles m,
    (i.serve (access.request a v) cycles m).1 = (access.inWindow a v m.window).1 ∧
      (i.serve (access.request a v) cycles m).2.window = (access.inWindow a v m.window).2

/-- Flat memory without protection is flat. -/
theorem isFlat_flat : (flat false).IsFlat := by
  rintro ⟨_ | _, _ | _⟩ a v cycles m <;> exact ⟨rfl, rfl⟩

end Bridge

namespace Codegen.Access

variable {i : MemoryInterface σ} (hflat : i.IsFlat) (a : Address) (v : BitVec 16)
  (g : Interpreter.State σ)

include hflat

/-- With a flat interface **the path makes no difference**: the result and the window are those of
an access to the window. A request is told in the cycle counter of the execution context only. -/
theorem perform_flat (access : Access) :
    (access.perform i a v g).1 = (access.inWindow a v g.memory.window).1 ∧
      (access.perform i a v g).2.withDevice () =
        { g.withDevice () with
          memory := ⟨(access.inWindow a v g.memory.window).2, ()⟩
          contextCycles := if access.Served a then g.contextCycles else g.cycles } := by
  by_cases h : access.Served a
  · rw [perform_of_served h, if_pos h]
    exact ⟨rfl, rfl⟩
  · obtain ⟨hresult, hwindow⟩ := hflat access a v g.cycles g.memory
    rw [perform_of_not_served h, if_neg h, ← hwindow]
    exact ⟨hresult, rfl⟩

/-- With a flat interface an access **changes the window** as an access to the window does. -/
theorem window_perform (access : Access) :
    (access.perform i a v g).2.memory.window = (access.inWindow a v g.memory.window).2 :=
  congrArg (·.memory.window) (perform_flat hflat a v g access).2

/-- With a flat interface a word is **its two bytes**. Of the device nothing is said: it is told of
one access or of two. -/
theorem perform_word (write : Bool) :
    (perform i ⟨true, write⟩ a v g).1 = (performByBytes i write a v g).1 ∧
      (perform i ⟨true, write⟩ a v g).2.withDevice () =
        (performByBytes i write a v g).2.withDevice () := by
  rw [performByBytes]
  generalize hperform : perform i ⟨false, write⟩ a ((v.extractLsb' 0 8).setWidth 16) g = low
  obtain ⟨hword, hwordState⟩ := perform_flat hflat a v g ⟨true, write⟩
  obtain ⟨hlow, hlowState⟩ :=
    perform_flat hflat a ((v.extractLsb' 0 8).setWidth 16) g ⟨false, write⟩
  obtain ⟨hhigh, hhighState⟩ :=
    perform_flat hflat (a + 1) ((v.extractLsb' 8 8).setWidth 16) low.2 ⟨false, write⟩
  rw [hperform] at hlow hlowState
  -- the second byte is accessed in the window that the first one leaves
  have hwindow : low.2.memory.window = _ := congrArg (·.memory.window) hlowState
  have hcycles : low.2.cycles = g.cycles := congrArg (·.cycles) hlowState
  have hcontext : low.2.contextCycles = _ := congrArg (·.contextCycles) hlowState
  dsimp only at hwindow hcontext
  rw [hlowState, hwindow, hcycles, hcontext] at hhighState
  have hboth : (if Served ⟨true, write⟩ a then g.contextCycles else g.cycles) =
      if Served ⟨false, write⟩ (a + 1) then
        if Served ⟨false, write⟩ a then g.contextCycles else g.cycles
      else g.cycles := by
    have hserved := served_word_iff write a
    by_cases h : Served ⟨false, write⟩ (a + 1)
    · simp only [hserved, h, and_true, if_true]
    · simp only [hserved, h, and_false, if_false]
  rw [hword, hhigh, hlow, hwindow, hwordState, hhighState, hboth, inWindow_word]
  exact ⟨rfl, rfl⟩

/-- With a flat interface a word that is written is **read again**, and no other byte changes. -/
theorem perform_read_written (u : BitVec 16) :
    (perform i ⟨true, false⟩ a u (perform i ⟨true, true⟩ a v g).2).1 = v ∧
      ∀ b, b ≠ a → b ≠ a + 1 →
        (perform i ⟨true, false⟩ a u (perform i ⟨true, true⟩ a v g).2).2.memory.window.get b =
          g.memory.window.get b := by
  have hwritten := window_perform hflat a v g ⟨true, true⟩
  have hread := window_perform hflat a u (perform i ⟨true, true⟩ a v g).2 ⟨true, false⟩
  refine ⟨?_, fun b hlow hhigh => ?_⟩
  · rw [(perform_flat hflat a u _ ⟨true, false⟩).1, hwritten]
    exact Window.getWord_setWord _ a v
  · rw [hread, hwritten]
    exact Window.get_setWord_of_ne _ v hlow hhigh

end Codegen.Access

end Dynarec
