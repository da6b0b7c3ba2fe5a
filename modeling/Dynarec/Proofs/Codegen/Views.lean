import Dynarec.Proofs.Codegen.Dispatch

/-!
# Views of guest registers

Generated code sees the guest registers through the instruction sequences that load and store
them. The main result is that these **views obey the laws of lenses** (`register_views_lawful`):
what is stored is loaded again, storing what was loaded changes nothing, and a store is seen by no
view but its own and those that share its bits, namely a pair and its two halves. All that is asked
of the host registers is that A and the pairs are zero-extended, and every store keeps them so.

Moving a register pair ignores the host flags (`IgnoresFlags`): they are neither looked at nor
changed. Moving an 8 bit register does so exactly if it is no high half (`ignoresFlags_iff`), which
is what the tracking of the host flags relies on.
-/

namespace Dynarec

open Bridge (MemoryInterface flat)
open Guest (Reg8 Reg16)
open Host (Flags Instruction Register Registers Size)
open Machine (Changes Environment Runs State execute)

variable {σ : Type}

/-! ### Code on entry -/

/-- Whether a state is one in which code is **entered**: nothing has been pushed so far. -/
structure Machine.State.AtEntry (env : Environment) (s : State σ) : Prop where
  stackPointer : s.registers.get .rsp = env.stackTop
  stack : s.stack = []

namespace Machine.State.AtEntry

variable {env : Environment} {s t : State σ}

/-- On entry there is nothing on the host stack, which is balanced. -/
theorem isBalanced (h : s.AtEntry env) : s.isBalanced env = true := by
  simp [State.isBalanced, h.stackPointer, h.stack]

/-- A state is still like one on entry after changes of other registers than `rsp`. -/
theorem of_changes (h : s.AtEntry env) {rs : List Register} (hc : Changes rs s t)
    (hrs : .rsp ∉ rs) : t.AtEntry env where
  stackPointer := (hc.registers .rsp hrs).trans h.stackPointer
  stack := hc.stack.trans h.stack

end Machine.State.AtEntry

/-! ### Instructions and the host flags -/

/-- Whether an instruction **ignores the host flags**: in every state it does the same whatever they
are, and leaves them as they are. -/
def Machine.IgnoresFlags (env : Environment) (i : MemoryInterface σ) (instruction : Instruction) :
    Prop :=
  ∀ (s : State σ) (f : Flags), execute env i (s.setFlags f) instruction =
    (execute env i s instruction).map fun r => (r.1, r.2.setFlags f)

namespace Codegen

variable {env : Environment} {i : MemoryInterface σ} {s t : State σ}

/-- A move has nothing to do with the host flags. -/
theorem ignoresFlags_mov (size : Size) (dst src : Register) :
    Machine.IgnoresFlags env i (.mov size dst (.register src)) := fun _ _ => rfl

/-- A move with zero-extension has nothing to do with the host flags. -/
theorem ignoresFlags_movzx (wide : Bool) (dst src : Register) :
    Machine.IgnoresFlags env i (.movzx wide dst (.register src)) := fun _ _ => by
  cases wide <;> rfl

/-- A shift sets the flags, from what it shifts alone, so that they do not come out as they went
in. -/
theorem not_ignoresFlags_shr (s : State σ) (dst : Register) :
    ¬ Machine.IgnoresFlags env i (.shift .shr .dword dst 8) := fun h => by
  have hset (f : Flags) :
      (Host.ShiftOp.shr.move (s.registers.read .dword dst) 8 f).2 = f := by
    have hf := h s f
    rw [Machine.execute_shift (by decide), Machine.execute_shift (by decide)] at hf
    exact congrArg (fun r : Machine.Flow × State σ => r.2.flags) (Except.ok.inj hf)
  have hclear := congrArg Flags.carry (hset ⟨false, false, false, false, false, false⟩)
  have hcarry := congrArg Flags.carry (hset ⟨true, false, false, false, false, false⟩)
  exact Bool.noConfusion (hclear.symm.trans hcarry)

/-- Moving an 8 bit register **ignores the host flags** exactly if it is no high half: the other
slots are reached by moves alone. -/
theorem ignoresFlags_iff (s : State σ) (g : Reg8) (h : Register) :
    (∀ instruction ∈ load8 g h ++ store8 g h, Machine.IgnoresFlags env i instruction) ↔
      ∀ q, slot g ≠ .high q := by
  unfold load8 store8
  generalize slot g = place
  cases place with
  | whole q =>
    refine iff_of_true (List.forall_mem_append.mpr ⟨?_, ?_⟩) fun _ => Slot.noConfusion
    · exact List.forall_mem_singleton.mpr (ignoresFlags_mov _ _ _)
    · exact List.forall_mem_singleton.mpr (ignoresFlags_movzx _ _ _)
  | low q =>
    refine iff_of_true (List.forall_mem_append.mpr ⟨?_, ?_⟩) fun _ => Slot.noConfusion
    · exact List.forall_mem_singleton.mpr (ignoresFlags_movzx _ _ _)
    · exact List.forall_mem_singleton.mpr (ignoresFlags_mov _ _ _)
  | high q =>
    refine iff_of_false (fun hignores => ?_) fun hne => hne q rfl
    exact not_ignoresFlags_shr s h (hignores _ (by simp))

/-- Moving a register pair **ignores the host flags**, for SP too. -/
theorem ignoresFlags_pair (p : Reg16) (h : Register) :
    ∀ instruction ∈ load16 p h ++ store16 p h, Machine.IgnoresFlags env i instruction := by
  refine List.forall_mem_append.mpr ⟨List.forall_mem_singleton.mpr (ignoresFlags_movzx _ _ _), ?_⟩
  cases p with
  | sp => exact List.forall_mem_singleton.mpr (ignoresFlags_mov _ _ _)
  | bc | de | hl => exact List.forall_mem_singleton.mpr (ignoresFlags_movzx _ _ _)

/-! ### Bound registers -/

/-- The host registers that hold **guest state**, and the host stack pointer. -/
def boundRegisters : List Register := [.rbx, .rbp, .rsp, .r12, .r13, .r14, .r15]

/-- The host register of a guest register is bound. -/
theorem slotRegister_mem (r : Reg8) : slotRegister r ∈ boundRegisters := by
  cases r <;> decide

/-- A host register that is not bound is not `rsp`, which is. -/
theorem rsp_notMem {h : Register} (hh : h ∉ boundRegisters) : .rsp ∉ [h] := fun hmem =>
  hh (List.mem_singleton.mp hmem ▸ by decide)

/-- No guest register lives in `rsp`. -/
theorem rsp_notMem_slot (r : Reg8) : .rsp ∉ [slotRegister r] := by
  cases r <;> decide

/-- No register pair lives in `rsp`. -/
theorem rsp_notMem_pair (p : Reg16) : .rsp ∉ [pairRegister p] := by
  cases p <;> decide

/-! ### Running loads and stores -/

section Runs

variable (env i)

/-- **Storing a byte**, which no other view sees, and after which the registers are still
zero-extended. -/
theorem runs_store8_view (hzero : ZeroExtended s.registers) (g : Reg8) {h : Register}
    (hh : h ∉ boundRegisters) :
    ∃ t, Runs env i (store8 g h) s [] t ∧ Changes [slotRegister g] s t ∧ ZeroExtended t.registers ∧
      ∀ r, byteView t.registers r =
        if r = g then (s.registers.get h).setWidth 8 else byteView s.registers r := by
  have hne : h ≠ slotRegister g := fun heq => hh (heq ▸ slotRegister_mem g)
  obtain ⟨t, hruns, hchanges, hput, -⟩ := runs_store8_slot env i s g hne
  refine ⟨t, hruns, hchanges, hzero.of_changes hchanges fun r hr => ?_,
    byteView_of_put hchanges hput⟩
  rw [hput, bound_congr hr]
  exact Slot.put_lt (hzero.lt_bound g) _

/-- **Storing what was loaded** changes nothing but the register it was loaded into. -/
theorem runs_load8_store8 (hzero : ZeroExtended s.registers) (g : Reg8) {h : Register}
    (hh : h ∉ boundRegisters) :
    ∃ t, Runs env i (load8 g h ++ store8 g h) s [] t ∧ Changes [h] s t := by
  have hne : h ≠ slotRegister g := fun heq => hh (heq ▸ slotRegister_mem g)
  obtain ⟨u, hload, hchanges, hvalue, -⟩ := runs_load8_view env i hzero g h
  obtain ⟨t, hstore, hchanges', hput, -⟩ := runs_store8_slot env i u g hne
  refine ⟨t, hload.append hstore, fun r hr => ?_, hchanges'.stack.trans hchanges.stack,
    hchanges'.contextCycles.trans hchanges.contextCycles, hchanges'.memory.trans hchanges.memory⟩
  have hkept := hchanges.registers r hr
  by_cases hslot : r = slotRegister g
  · -- the byte that is put back is the one that was there
    subst hslot
    rw [hput, hvalue, hkept, BitVec.setWidth_setWidth_of_le _ (by decide), BitVec.setWidth_eq]
    exact Slot.put_get (hzero.lt_bound g)
  · exact (hchanges'.registers r fun hmem => hslot (List.mem_singleton.mp hmem)).trans hkept

/-- **Storing a word**, after which the registers are still zero-extended. -/
theorem runs_store16_view (hzero : ZeroExtended s.registers) (p : Reg16) (h : Register) :
    ∃ t, Runs env i (store16 p h) s [] t ∧ Changes [pairRegister p] s t ∧
      ZeroExtended t.registers ∧ t.registers.get (pairRegister p) =
        putWord p (s.registers.get (pairRegister p)) ((s.registers.get h).setWidth 16) := by
  obtain ⟨t, hruns, hchanges, hput, -⟩ := runs_store16_word env i s p h
  refine ⟨t, hruns, hchanges, hzero.of_changes hchanges fun r hr => ?_, hput⟩
  rw [hput]
  exact putWord_lt hr _ _

end Runs

/-! ### Moving guest registers -/

/-- Loading a register pair takes one instruction. -/
theorem tame_load16 (p : Reg16) (dst : Register) : Assembly.Tame 1 (load16 p dst) := by
  cases p <;> exact ⟨rfl, rfl, of_decide_eq_true rfl⟩

/-- Storing a register pair takes one instruction. -/
theorem tame_store16 (p : Reg16) (src : Register) : Assembly.Tame 1 (store16 p src) := by
  cases p <;> exact ⟨rfl, rfl, of_decide_eq_true rfl⟩

/-- Whether instructions **move** the machine from one state to another: one after another they do,
without touching guest memory, and so do their assembled bytes where they are entered. -/
def Moves (env : Environment) (i : MemoryInterface σ) (is : List Instruction) (s t : State σ) :
    Prop :=
  Runs env i is s [] t ∧ (s.AtEntry env → Executes env i (.straight is) s [] t)

/-- Tame instructions that run are executed as code of their own, whose bytes can be laid out. -/
theorem moves_of_runs {is : List Instruction} {n : Nat} (htame : Assembly.Tame n is)
    (hruns : Runs env i is s [] t) (ht : s.AtEntry env → t.AtEntry env) : Moves env i is s t :=
  ⟨hruns, fun hs =>
    executes_of_yields htame.straight (.straight hruns) (ht hs).isBalanced (ht hs).stack⟩

/-- Whether instructions **load** a value into a register: they do that and nothing else. -/
def Loads (env : Environment) (i : MemoryInterface σ) (is : List Instruction) (s : State σ)
    (dst : Register) (v : HostWord) : Prop :=
  ∃ t, Moves env i is s t ∧ Changes [dst] s t ∧ t.registers.get dst = v

/-- An 8 bit register is loaded as what it **holds**, zero-extended. -/
theorem loads_byteView (hzero : ZeroExtended s.registers) (g : Reg8) {dst : Register}
    (hdst : dst ∉ boundRegisters) :
    Loads env i (load8 g dst) s dst ((byteView s.registers g).setWidth 64) := by
  obtain ⟨t, hruns, hchanges, hvalue, -⟩ := runs_load8_view env i hzero g dst
  exact ⟨t, moves_of_runs (tame_load8 g dst) hruns fun hs =>
    hs.of_changes hchanges (rsp_notMem hdst), hchanges, hvalue⟩

/-! ### Laws -/

/-- What a **store of a byte** to an 8 bit register leaves alone, in its state afterwards: what the
other 8 bit registers are loaded as, SP, the shadow flags, and that registers are zero-extended. -/
structure StoresByte (env : Environment) (i : MemoryInterface σ) (g : Reg8) (dst : Register)
    (s t : State σ) : Prop where
  others : ∀ r, r ≠ g →
    ∃ v, Loads env i (load8 r dst) s dst v ∧ Loads env i (load8 r dst) t dst v
  stackPointer : t.registers.get .r14 = s.registers.get .r14
  shadowFlags : t.registers.get .r15 = s.registers.get .r15
  changes : Changes [slotRegister g] s t
  zeroExtended : ZeroExtended t.registers

/-- What a **store of a word** to a register pair does: it sets the pair, and with it the two 8 bit
registers that live in its halves. Of the host register of SP only the low word changes. -/
structure StoresWord (env : Environment) (i : MemoryInterface σ) (p : Reg16) (w : BitVec 16)
    (dst : Register) (s t : State σ) : Prop where
  word : (t.registers.get (pairRegister p)).setWidth 16 = w
  high : ∀ r, slot r = .high (pairRegister p) →
    Loads env i (load8 r dst) t dst ((w.extractLsb' 8 8).setWidth 64)
  low : ∀ r, slot r = .low (pairRegister p) →
    Loads env i (load8 r dst) t dst ((w.extractLsb' 0 8).setWidth 64)
  others : ∀ r, slotRegister r ≠ pairRegister p →
    ∃ v, Loads env i (load8 r dst) s dst v ∧ Loads env i (load8 r dst) t dst v
  base : p = .sp → t.registers.get .r14 >>> 16 = s.registers.get .r14 >>> 16
  changes : Changes [pairRegister p] s t
  zeroExtended : ZeroExtended t.registers

/-- What changes no view is loaded as before: one value is loaded in both states. -/
theorem exists_loads (hs : ZeroExtended s.registers) (ht : ZeroExtended t.registers) {r : Reg8}
    (hr : byteView t.registers r = byteView s.registers r) {dst : Register}
    (hdst : dst ∉ boundRegisters) :
    ∃ v, Loads env i (load8 r dst) s dst v ∧ Loads env i (load8 r dst) t dst v := by
  refine ⟨_, loads_byteView hs r hdst, ?_⟩
  rw [← hr]
  exact loads_byteView ht r hdst

/-- **A stored byte** leaves everything else alone: the other 8 bit registers, SP and the shadow
flags are loaded as before. -/
theorem moves_store8 (hzero : ZeroExtended s.registers) (g : Reg8) {h dst : Register}
    (hh : h ∉ boundRegisters) (hdst : dst ∉ boundRegisters) :
    ∃ t, Moves env i (store8 g h) s t ∧ StoresByte env i g dst s t := by
  obtain ⟨t, hruns, hchanges, hzero', hviews⟩ := runs_store8_view env i hzero g hh
  refine ⟨t, moves_of_runs (tame_store8 g h) hruns fun hs =>
    hs.of_changes hchanges (rsp_notMem_slot g), fun r hr => ?_, ?_, ?_, hchanges, hzero'⟩
  · exact exists_loads hzero hzero' ((hviews r).trans (if_neg hr)) hdst
  · exact hchanges.registers _ (by cases g <;> decide)
  · exact hchanges.registers _ (by cases g <;> decide)

/-- **A stored word** sets a pair and its halves, and leaves everything else alone. -/
theorem moves_store16 (hzero : ZeroExtended s.registers) (p : Reg16) (h : Register) {dst : Register}
    (hdst : dst ∉ boundRegisters) :
    ∃ t, Moves env i (store16 p h) s t ∧
      StoresWord env i p ((s.registers.get h).setWidth 16) dst s t := by
  obtain ⟨t, hruns, hchanges, hzero', hput⟩ := runs_store16_view env i hzero p h
  have hword :
      (t.registers.get (pairRegister p)).setWidth 16 = (s.registers.get h).setWidth 16 := by
    rw [hput, low_putWord]
  refine ⟨t, moves_of_runs (tame_store16 p h) hruns fun hs =>
    hs.of_changes hchanges (rsp_notMem_pair p), hword, fun r hr => ?_, fun r hr => ?_,
    fun r hr => ?_, fun hp => ?_, hchanges, hzero'⟩
  · rw [← hword, ← byteView_of_high hr]
    exact loads_byteView hzero' r hdst
  · rw [← hword, ← byteView_of_low hr]
    exact loads_byteView hzero' r hdst
  · exact exists_loads hzero hzero' (byteView_of_changes hchanges hr) hdst
  · subst hp
    rw [show t.registers.get .r14 = _ from hput]
    exact upper_update_word _ _

/-- **Views of guest registers are lenses**. Take a state in which A and the pairs other than SP are
zero-extended, an 8 bit register, a register pair, and two host registers that hold no guest state.

A byte that is stored to the register is loaded again, zero-extended; storing what was loaded
changes no register but the one it was loaded into; and a store leaves the other 8 bit registers, SP
and the shadow flags as they were. A word that is stored to the pair is loaded again, zero-extended,
and sets the two 8 bit registers that live in the pair and no others; of SP it keeps the window
base. All stores leave the registers zero-extended. The code that loads and stores the 8 bit
register ignores the host flags exactly if the register is not the high half of a pair, and that for
pairs always does. -/
theorem register_views_lawful (hzero : ZeroExtended s.registers) (g : Reg8) (p : Reg16)
    {h dst : Register} (hh : h ∉ boundRegisters) (hdst : dst ∉ boundRegisters) :
    (∃ t, Moves env i (store8 g h ++ load8 g dst) s t ∧
      t.registers.get dst = ((s.registers.get h).setWidth 8).setWidth 64) ∧
    (∃ t, Moves env i (load8 g dst ++ store8 g dst) s t ∧ Changes [dst] s t) ∧
    (∃ t, Moves env i (store8 g h) s t ∧ StoresByte env i g dst s t) ∧
    (∃ t, Moves env i (store16 p h ++ load16 p dst) s t ∧
      t.registers.get dst = ((s.registers.get h).setWidth 16).setWidth 64) ∧
    (∃ t, Moves env i (store16 p h) s t ∧
      StoresWord env i p ((s.registers.get h).setWidth 16) dst s t) ∧
    ((∀ instruction ∈ load8 g h ++ store8 g h, Machine.IgnoresFlags env i instruction) ↔
      ∀ q, slot g ≠ .high q) ∧
    ∀ instruction ∈ load16 p h ++ store16 p h, Machine.IgnoresFlags env i instruction := by
  refine ⟨?_, ?_, moves_store8 hzero g hh hdst, ?_, moves_store16 hzero p h hdst,
    ignoresFlags_iff s g h, ignoresFlags_pair p h⟩
  · obtain ⟨u, hstore, hchanges, hzero', hviews⟩ := runs_store8_view env i hzero g hh
    obtain ⟨t, hload, hchanges', hvalue, -⟩ := runs_load8_view env i hzero' g dst
    refine ⟨t, moves_of_runs ((tame_store8 g h).append (tame_load8 g dst)) (hstore.append hload)
      fun hs => ?_, ?_⟩
    · exact (hs.of_changes hchanges (rsp_notMem_slot g)).of_changes hchanges' (rsp_notMem hdst)
    · rw [hvalue, hviews g, if_pos rfl]
  · obtain ⟨t, hruns, hchanges⟩ := runs_load8_store8 env i hzero g hdst
    exact ⟨t, moves_of_runs ((tame_load8 g dst).append (tame_store8 g dst)) hruns fun hs =>
      hs.of_changes hchanges (rsp_notMem hdst), hchanges⟩
  · obtain ⟨u, hstore, hchanges, -, hput⟩ := runs_store16_view env i hzero p h
    obtain ⟨t, hload, hchanges', hvalue, -⟩ := runs_load16_word env i u p dst
    refine ⟨t, moves_of_runs ((tame_store16 p h).append (tame_load16 p dst)) (hstore.append hload)
      fun hs => ?_, ?_⟩
    · exact (hs.of_changes hchanges (rsp_notMem_pair p)).of_changes hchanges' (rsp_notMem hdst)
    · rw [hvalue, hput, low_putWord]

/-- A machine with `0x1234` in BC and a value that is wider than a pair in a free register. -/
def holding : State Bridge.Recorder :=
  ((Cpu.initial.enter Demo.hostEnvironment 0 ⟨.zeros, #[]⟩).setRegister
    (pairRegister .bc) 0x1234).setRegister operand 0x1BEEF

/-- B is stored by rotating BC, and loaded into the register that it was stored from. Storing the
word sets B and C. -/
theorem register_views_lawful_rotating :
    (∃ t, Executes Demo.hostEnvironment (flat false)
        (.straight (store8 .b operand ++ load8 .b operand)) holding [] t ∧
      t.registers.get operand = 0xEF) ∧
    (∃ t, Executes Demo.hostEnvironment (flat false) (.straight (store8 .b operand)) holding
        [] t ∧
      StoresByte Demo.hostEnvironment (flat false) .b operand holding t) ∧
    ∃ t, Executes Demo.hostEnvironment (flat false) (.straight (store16 .bc operand)) holding
        [] t ∧
      Loads Demo.hostEnvironment (flat false) (load8 .b operand) t operand 0xBE ∧
      Loads Demo.hostEnvironment (flat false) (load8 .c operand) t operand 0xEF := by
  have hentry : holding.AtEntry Demo.hostEnvironment := ⟨rfl, rfl⟩
  have hzero : ZeroExtended holding.registers :=
    ⟨of_decide_eq_true rfl, of_decide_eq_true rfl, of_decide_eq_true rfl, of_decide_eq_true rfl⟩
  have hfree : operand ∉ boundRegisters := by decide
  obtain ⟨⟨t, ht, hloaded⟩, -, ⟨u, hu, hbyte⟩, -, ⟨v, hv, hword⟩, -⟩ :=
    register_views_lawful (i := flat false) hzero .b .bc hfree hfree
  exact ⟨⟨t, ht.2 hentry, hloaded⟩, ⟨u, hu.2 hentry, hbyte⟩,
    v, hv.2 hentry, hword.high .b rfl, hword.low .c rfl⟩

end Codegen

end Dynarec
