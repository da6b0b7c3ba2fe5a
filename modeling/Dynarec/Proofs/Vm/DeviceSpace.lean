import Dynarec.Proofs.Vm.Simulation

/-!
# Which memory is accessed without a handler

Generated code accesses three regions of the window directly: plain memory below `0xFE00` for reads,
from `0x8000` on for writes, and **high RAM** from `0xFF80` to `0xFFFE` for the stack. Between them,
from `0xFE00` to `0xFF7F`, lies **device space**, which belongs to the memory interface.

Loads and stores keep to this, and so does the stack but for three values of SP: a push decides by
SP before it is decremented, and a pop does not look at its second byte. A push at `0xFF80` or
`0xFF81` writes to device space, and a pop at `0xFFFE` reads the byte at `0xFFFF`
(`direct_accesses`).
-/

namespace Dynarec

open Bridge (GuestMemory MemoryInterface)
open Codegen (Config)
open Interpreter (Demand Session demandEvents)
open Machine (Event)

variable {σ : Type} {setup : Setup σ}

/-! ### Regions -/

namespace Machine.Event

/-- The bytes of the window that are accessed without a handler. -/
def bytes : Event → List Address
  | direct ⟨false, _⟩ _ a => [a]
  | direct ⟨true, _⟩ _ a => [a, a + 1]
  | call _ _ => []

/-- Whether nothing in **device space** is accessed. -/
def OutsideDevices (e : Event) : Prop := ∀ a ∈ e.bytes, a.toNat < 0xFE00 ∨ 0xFF80 ≤ a.toNat

/-- Whether nothing below `0x8000` is **written**. -/
def AboveRom (e : Event) : Prop :=
  ∀ wide stack a, e = direct ⟨wide, true⟩ stack a → ∀ b ∈ e.bytes, 0x8000 ≤ b.toNat

/-- Whether the **stack** is accessed in high RAM only. -/
def InHighRam (e : Event) : Prop :=
  ∀ access a, e = direct access true a → ∀ b ∈ e.bytes, 0xFF80 ≤ b.toNat ∧ b.toNat ≤ 0xFFFE

section Direct

variable (write stack : Bool) (a : Address)

/-- The bytes of a word are the one at its address and the next one, which is at 0 after the
last. -/
theorem forall_bytes_word {P : Address → Prop} :
    (∀ b ∈ (direct ⟨true, write⟩ stack a).bytes, P b) ↔ P a ∧ P (a + 1) := by
  simp only [bytes, List.forall_mem_cons, List.not_mem_nil, false_implies, implies_true, and_true]

/-- A byte lies outside of device space if it is below or above it. -/
theorem outsideDevices_byte :
    (direct ⟨false, write⟩ stack a).OutsideDevices ↔ a.toNat < 0xFE00 ∨ 0xFF80 ≤ a.toNat := by
  simp [OutsideDevices, bytes]

/-- A word lies outside of device space if both of its bytes do, each on whichever side. -/
theorem outsideDevices_word :
    (direct ⟨true, write⟩ stack a).OutsideDevices ↔
      (a.toNat < 0xFE00 ∨ 0xFF80 ≤ a.toNat) ∧
        ((a + 1).toNat < 0xFE00 ∨ 0xFF80 ≤ (a + 1).toNat) := forall_bytes_word write stack a

/-- A read writes nothing. -/
theorem aboveRom_read (wide : Bool) : (direct ⟨wide, false⟩ stack a).AboveRom := nofun

/-- A byte is written above the ROM from `0x8000` on. -/
theorem aboveRom_byte : (direct ⟨false, true⟩ stack a).AboveRom ↔ 0x8000 ≤ a.toNat := by
  simp [AboveRom, bytes]

/-- A word is written above the ROM if both of its bytes are, so that one at `0xFFFF` is not: its
second byte is at 0. -/
theorem aboveRom_word :
    (direct ⟨true, true⟩ stack a).AboveRom ↔ 0x8000 ≤ a.toNat ∧ 0x8000 ≤ (a + 1).toNat :=
  Iff.trans ⟨fun h => h _ _ _ rfl, fun h _ _ _ _ => h⟩ (forall_bytes_word true stack a)

/-- An access that is not to the stack says nothing about the stack. -/
theorem inHighRam_plain (access : Codegen.Access) : (direct access false a).InHighRam := nofun

/-- A word of the stack lies in high RAM if both of its bytes do. -/
theorem inHighRam_word :
    (direct ⟨true, write⟩ true a).InHighRam ↔
      (0xFF80 ≤ a.toNat ∧ a.toNat ≤ 0xFFFE) ∧ 0xFF80 ≤ (a + 1).toNat ∧ (a + 1).toNat ≤ 0xFFFE :=
  Iff.trans ⟨fun h => h _ _ rfl, fun h _ _ _ => h⟩ (forall_bytes_word write true a)

end Direct

/-- A handler call accesses nothing directly. -/
theorem outsideDevices_call (request : Bridge.Request) (cycles : HostWord) :
    (call request cycles).OutsideDevices := nofun

theorem aboveRom_call (request : Bridge.Request) (cycles : HostWord) :
    (call request cycles).AboveRom := nofun

theorem inHighRam_call (request : Bridge.Request) (cycles : HostWord) :
    (call request cycles).InHighRam := nofun

end Machine.Event

/-! ### Demands -/

namespace Interpreter.Demand

/-- Whether a word is pushed **across the lower end** of high RAM. -/
def PushesAcross : Demand → Prop
  | push sp _ => sp.toNat = 0xFF80 ∨ sp.toNat = 0xFF81
  | _ => False

/-- Whether a word is popped **across the upper end** of high RAM. -/
def PopsAcross : Demand → Prop
  | pop sp => sp.toNat = 0xFFFE
  | _ => False

/-- The address after another one, if it is not the last. -/
theorem toNat_add_one {a : Address} (h : a.toNat < 0xFFFF) : (a + 1).toNat = a.toNat + 1 := by
  rw [BitVec.toNat_add]
  exact Nat.mod_eq_of_lt (by simpa using by omega)

/-- The address two before another one, if there are two. -/
theorem toNat_sub_two {a : Address} (h : 2 ≤ a.toNat) : (a - 2).toNat = a.toNat - 2 := by
  rw [BitVec.toNat_sub]
  simp
  omega

section Direct

variable {a : Address} (cycles : HostWord)

/-- A read below device space is made directly. -/
theorem event_read (h : a.toNat < 0xFE00) :
    (read a).event cycles = .direct ⟨false, false⟩ false a :=
  event_of_isDirect (d := .read a) (decide_eq_true h) rfl cycles

/-- A write above the ROM and below device space is made directly. -/
theorem event_write (h : 0x8000 ≤ a.toNat ∧ a.toNat < 0xFE00) (v : Byte) :
    (write a v).event cycles = .direct ⟨false, true⟩ false a :=
  event_of_isDirect (d := .write a v) (decide_eq_true h) rfl cycles

/-- A write of a word above the ROM is made directly, if the second byte is below device space as
well. -/
theorem event_writeWord (h : 0x8000 ≤ a.toNat ∧ a.toNat < 0xFDFF) (v : BitVec 16) :
    (writeWord a v).event cycles = .direct ⟨true, true⟩ false a :=
  event_of_isDirect (d := .writeWord a v) (decide_eq_true h) rfl cycles

/-- A push with SP in high RAM is made directly, **two bytes below** SP. -/
theorem event_push (h : 0xFF80 ≤ a.toNat) (v : BitVec 16) :
    (push a v).event cycles = .direct ⟨true, true⟩ true (a - 2) :=
  event_of_isDirect (d := .push a v) (decide_eq_true h) rfl cycles

/-- A pop in high RAM is made directly, unless SP is the last address. -/
theorem event_pop (h : 0xFF80 ≤ a.toNat ∧ a.toNat ≠ 0xFFFF) :
    (pop a).event cycles = .direct ⟨true, false⟩ true a :=
  event_of_isDirect (d := .pop a) (decide_eq_true h) rfl cycles

end Direct

/-- A demand that a handler serves is no push across the lower end of high RAM. -/
theorem not_pushesAcross_of_not_isDirect {d : Demand} (h : d.isDirect = false) :
    ¬ d.PushesAcross := by
  intro hacross
  cases d with
  | push sp v =>
    have hsp : ¬ 0xFF80 ≤ sp.toNat := of_decide_eq_false h
    rw [PushesAcross] at hacross
    omega
  | _ => exact hacross

/-- A demand that a handler serves is no pop across the upper end of high RAM. -/
theorem not_popsAcross_of_not_isDirect {d : Demand} (h : d.isDirect = false) : ¬ d.PopsAcross := by
  intro hacross
  cases d with
  | pop sp =>
    have hsp : ¬ (0xFF80 ≤ sp.toNat ∧ sp.toNat ≠ 0xFFFF) := of_decide_eq_false h
    rw [PopsAcross] at hacross
    omega
  | _ => exact hacross

/-- A demand accesses **device space** directly exactly if it pushes across the lower end of high
RAM. The cases are the kinds of demands, each of which is direct in one region. -/
theorem outsideDevices_event (d : Demand) (cycles : HostWord) :
    (d.event cycles).OutsideDevices ↔ ¬ d.PushesAcross := by
  cases hdirect : d.isDirect with
  | false =>
    rw [event_of_not_isDirect hdirect]
    exact iff_of_true (Event.outsideDevices_call _ _) (not_pushesAcross_of_not_isDirect hdirect)
  | true =>
    cases d with
    | read a =>
      have ha : a.toNat < 0xFE00 := of_decide_eq_true hdirect
      rw [event_read cycles ha, Event.outsideDevices_byte]
      exact iff_of_true (.inl ha) id
    | write a v =>
      have ha : 0x8000 ≤ a.toNat ∧ a.toNat < 0xFE00 := of_decide_eq_true hdirect
      rw [event_write cycles ha, Event.outsideDevices_byte]
      exact iff_of_true (.inl ha.2) id
    | writeWord a v =>
      have ha : 0x8000 ≤ a.toNat ∧ a.toNat < 0xFDFF := of_decide_eq_true hdirect
      have hnext := toNat_add_one (a := a) (by omega)
      rw [event_writeWord cycles ha, Event.outsideDevices_word]
      exact iff_of_true (by omega) id
    | push sp v =>
      -- the word goes below the stack pointer that is compared
      have hsp : 0xFF80 ≤ sp.toNat := of_decide_eq_true hdirect
      have htop := toNat_sub_two (a := sp) (by omega)
      have hnext := toNat_add_one (a := sp - 2) (by omega)
      rw [event_push cycles hsp, Event.outsideDevices_word, PushesAcross]
      omega
    | pop sp =>
      have hsp : 0xFF80 ≤ sp.toNat ∧ sp.toNat ≠ 0xFFFF := of_decide_eq_true hdirect
      have hnext := toNat_add_one (a := sp) (by omega)
      rw [event_pop cycles hsp, Event.outsideDevices_word]
      exact iff_of_true (by omega) id
    | interrupts enabled => cases hdirect

/-- Nothing below `0x8000` is written directly, whatever is demanded. -/
theorem aboveRom_event (d : Demand) (cycles : HostWord) : (d.event cycles).AboveRom := by
  cases hdirect : d.isDirect with
  | false =>
    rw [event_of_not_isDirect hdirect]
    exact Event.aboveRom_call _ _
  | true =>
    cases d with
    | read a =>
      rw [event_read cycles (of_decide_eq_true hdirect)]
      exact Event.aboveRom_read _ _ _
    | write a v =>
      have ha : 0x8000 ≤ a.toNat ∧ a.toNat < 0xFE00 := of_decide_eq_true hdirect
      rw [event_write cycles ha, Event.aboveRom_byte]
      exact ha.1
    | writeWord a v =>
      have ha : 0x8000 ≤ a.toNat ∧ a.toNat < 0xFDFF := of_decide_eq_true hdirect
      have hnext := toNat_add_one (a := a) (by omega)
      rw [event_writeWord cycles ha, Event.aboveRom_word]
      omega
    | push sp v =>
      have hsp : 0xFF80 ≤ sp.toNat := of_decide_eq_true hdirect
      have htop := toNat_sub_two (a := sp) (by omega)
      have hnext := toNat_add_one (a := sp - 2) (by omega)
      rw [event_push cycles hsp, Event.aboveRom_word]
      omega
    | pop sp =>
      rw [event_pop cycles (of_decide_eq_true hdirect)]
      exact Event.aboveRom_read _ _ _
    | interrupts enabled => cases hdirect

/-- The stack is accessed directly in **high RAM** only, exactly if no word is pushed or popped
across its ends. -/
theorem inHighRam_event (d : Demand) (cycles : HostWord) :
    (d.event cycles).InHighRam ↔ ¬ d.PushesAcross ∧ ¬ d.PopsAcross := by
  cases hdirect : d.isDirect with
  | false =>
    rw [event_of_not_isDirect hdirect]
    exact iff_of_true (Event.inHighRam_call _ _)
      ⟨not_pushesAcross_of_not_isDirect hdirect, not_popsAcross_of_not_isDirect hdirect⟩
  | true =>
    cases d with
    | read a =>
      rw [event_read cycles (of_decide_eq_true hdirect)]
      exact iff_of_true (Event.inHighRam_plain _ _) ⟨id, id⟩
    | write a v =>
      rw [event_write cycles (of_decide_eq_true hdirect)]
      exact iff_of_true (Event.inHighRam_plain _ _) ⟨id, id⟩
    | writeWord a v =>
      rw [event_writeWord cycles (of_decide_eq_true hdirect)]
      exact iff_of_true (Event.inHighRam_plain _ _) ⟨id, id⟩
    | push sp v =>
      have hsp : 0xFF80 ≤ sp.toNat := of_decide_eq_true hdirect
      have hlt := sp.isLt
      have htop := toNat_sub_two (a := sp) (by omega)
      have hnext := toNat_add_one (a := sp - 2) (by omega)
      rw [event_push cycles hsp, Event.inHighRam_word]
      simp only [PushesAcross, PopsAcross, not_false_eq_true, and_true]
      omega
    | pop sp =>
      -- the second byte is above the stack pointer that is compared
      have hsp : 0xFF80 ≤ sp.toNat ∧ sp.toNat ≠ 0xFFFF := of_decide_eq_true hdirect
      have hlt := sp.isLt
      have hnext := toNat_add_one (a := sp) (by omega)
      rw [event_pop cycles hsp, Event.inHighRam_word]
      simp only [PushesAcross, PopsAcross, not_false_eq_true, true_and]
      omega
    | interrupts enabled => cases hdirect

end Interpreter.Demand

/-! ### Runs -/

/-- What **run after run** asks of guest memory. -/
def Interpreter.Session.demands (config : Config) (i : MemoryInterface σ) :
    (runs : Nat) → Session σ → List (List (Demand × HostWord))
  | 0, _ => []
  | runs + 1, s => s.runDemands config i :: demands config i runs (s.run config i).2

/-- The events of the runs of a session are those of their demands. -/
theorem Interpreter.Session.map_events_reports (config : Config)
    (i : MemoryInterface σ) (runs : Nat)
    (s : Session σ) :
    (s.reports config i runs).map (·.events) = (s.demands config i runs).map demandEvents := by
  induction runs generalizing s with
  | zero => rfl
  | succ runs ih =>
    rw [reports, demands]
    simp only [List.map_cons, ih]

/-- **Which memory is accessed without a handler.** However a machine starts, each of its runs does
to guest memory what the interpreted run asks of it, one demand after another. A demand that is not
met in the window reaches the handler that corresponds to it. No demand writes below `0x8000`
directly. One accesses device space directly exactly if it pushes a word across the lower end of
high RAM, and the stack is accessed directly in high RAM only, unless a word is pushed or popped
across its ends. -/
theorem VirtualMachine.direct_accesses (hsound : setup.env.Sound) (cpu : Cpu)
    (memory : GuestMemory σ)
    (contextCycles : HostWord) (runs : Nat) :
    let vm : VirtualMachine σ := ⟨cpu, memory, contextCycles, .empty⟩
    let s : Session σ := ⟨cpu, memory, contextCycles, []⟩
    (vm.reports setup runs).map (·.events) =
        (s.demands setup.config setup.interface runs).map demandEvents ∧
      ∀ demands ∈ s.demands setup.config setup.interface runs, ∀ d ∈ demands,
        (d.1.isDirect = false → d.1.event d.2 = .call d.1.request d.2) ∧
        (d.1.event d.2).AboveRom ∧
        ((d.1.event d.2).OutsideDevices ↔ ¬ d.1.PushesAcross) ∧
        ((d.1.event d.2).InHighRam ↔ ¬ d.1.PushesAcross ∧ ¬ d.1.PopsAcross) := by
  refine ⟨?_, fun demands _ d _ => ⟨fun h => ?_, ?_, ?_, ?_⟩⟩
  · rw [(Simulates.fresh cpu memory contextCycles).reports hsound runs]
    exact Session.map_events_reports _ _ runs _
  · exact Demand.event_of_not_isDirect h d.2
  · exact Demand.aboveRom_event d.1 d.2
  · exact Demand.outsideDevices_event d.1 d.2
  · exact Demand.inHighRam_event d.1 d.2

/-! ### A push to device space -/

/-- A machine that is about to push BC while SP is `0xFF80`. -/
def Demo.pushing : VirtualMachine Messages :=
  ⟨⟨0, 0, 0x1234, 0, 0, 0xFF80, 0, 0⟩, Demo.memory [0xC5, 0x76], 0, .empty⟩

/-- A run that starts with SP at the lower end of high RAM and pushes a word: SP is compared before
it is decremented, and the word goes to the two bytes below. -/
theorem VirtualMachine.direct_accesses_pushing :
    (Demo.pushing.reports (Demo.setupWith 64) 1).map (·.events) =
      [[.direct ⟨true, true⟩ true 0xFF7E]] :=
  (direct_accesses Demo.hostEnvironment_sound _ _ _ 1).1.trans rfl

/-- The word that is pushed overwrites two bytes of device space, `0xFF7E` and `0xFF7F`. -/
theorem VirtualMachine.not_outsideDevices_pushing :
    ¬ ∀ r ∈ Demo.pushing.reports (Demo.setupWith 64) 1, ∀ e ∈ r.events, e.OutsideDevices := by
  intro h
  have hreports : Demo.pushing.reports (Demo.setupWith 64) 1 = _ :=
    (Simulates.fresh _ _ _).reports Demo.hostEnvironment_sound 1
  rw [hreports] at h
  -- the only access of the run
  have hpush : (Event.direct ⟨true, true⟩ true 0xFF7E).OutsideDevices :=
    h _ List.mem_cons_self _ List.mem_cons_self
  rw [Event.outsideDevices_word] at hpush
  exact absurd hpush (by decide)

end Dynarec
