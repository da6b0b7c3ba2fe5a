import Dynarec.Proofs.Machine.Yields

/-!
# Effects of instructions

The state after an instruction, written with `setRegister`, `writeRegister` and `setFlags` alone,
and the simplification rules that read registers and flags off such a state. Words that are pushed
and popped again at once leave no trace on the stack (`runs_capture`, `runs_reload`).
-/

namespace Dynarec.Machine

open Bridge (MemoryInterface)
open Host (AluOp ShiftOp Flags Instruction Memory Register Registers Size Source)

variable {σ : Type} {env : Environment} {i : MemoryInterface σ} {s t : State σ}

/-! ### Reading states -/

/-- The state with other flags. -/
def State.setFlags (s : State σ) (f : Flags) : State σ := { s with flags := f }

/-- A register that is set has the value it is set to, and every other one keeps its own. -/
@[simp]
theorem get_setRegister (s : State σ) (r q : Register) (v : HostWord) :
    (s.setRegister r v).registers.get q = if q = r then v else s.registers.get q :=
  Registers.get_set _ _ _ _

/-- A write to a part of a register changes that part of that register. -/
@[simp]
theorem get_writeRegister (s : State σ) (size : Size) (r q : Register) (v : BitVec size.bits) :
    (writeRegister s size r v).registers.get q =
      if q = r then size.update (s.registers.get r) v else s.registers.get q :=
  Registers.get_set _ _ _ _

@[simp]
theorem registers_setFlags (s : State σ) (f : Flags) : (s.setFlags f).registers = s.registers := rfl

@[simp]
theorem flags_setFlags (s : State σ) (f : Flags) : (s.setFlags f).flags = f := rfl

@[simp]
theorem flags_setRegister (s : State σ) (r : Register) (v : HostWord) :
    (s.setRegister r v).flags = s.flags := rfl

@[simp]
theorem flags_writeRegister (s : State σ) (size : Size) (r : Register) (v : BitVec size.bits) :
    (writeRegister s size r v).flags = s.flags := rfl

@[simp]
theorem stack_setRegister (s : State σ) (r : Register) (v : HostWord) :
    (s.setRegister r v).stack = s.stack := rfl

@[simp]
theorem stack_writeRegister (s : State σ) (size : Size) (r : Register) (v : BitVec size.bits) :
    (writeRegister s size r v).stack = s.stack := rfl

@[simp]
theorem contextCycles_writeRegister (s : State σ) (size : Size) (r : Register)
    (v : BitVec size.bits) : (writeRegister s size r v).contextCycles = s.contextCycles := rfl

@[simp]
theorem memory_writeRegister (s : State σ) (size : Size) (r : Register) (v : BitVec size.bits) :
    (writeRegister s size r v).memory = s.memory := rfl

@[simp]
theorem sourceValue_register (s : State σ) (size : Size) (r : Register) :
    sourceValue s size (.register r) = s.registers.read size r := rfl

@[simp]
theorem sourceValue_immediate (s : State σ) (size : Size) (v : HostWord) :
    sourceValue s size (.immediate v) = v.setWidth _ := rfl

/-- A write to the low byte keeps the 56 bits above it. -/
@[simp]
theorem update_byte (old : HostWord) (v : BitVec 8) :
    Size.byte.update old v = ((old >>> 8) <<< 8) ||| v.setWidth 64 := rfl

/-- A write to the low half keeps the 48 bits above it. -/
@[simp]
theorem update_word (old : HostWord) (v : BitVec 16) :
    Size.word.update old v = ((old >>> 16) <<< 16) ||| v.setWidth 64 := rfl

/-- A write to 32 bits **clears the upper half** of the register. -/
@[simp]
theorem update_dword (old : HostWord) (v : BitVec 32) :
    Size.dword.update old v = v.setWidth 64 := rfl

@[simp]
theorem update_qword (old v : HostWord) : Size.qword.update old v = v := rfl

/-- A base register with a displacement addresses what the register holds, moved by the displacement
with its sign. -/
theorem effectiveAddress_offset (rs : Registers) (r : Register) (d : BitVec 32) :
    effectiveAddress rs ((Memory.ofBase r).offset d) = rs.get r + d.signExtend 64 := by
  simp [effectiveAddress, Memory.ofBase, Memory.offset]

/-! ### Changes -/

/-- One more register that is set, if it is one of those that may change. -/
theorem Changes.setRegister {rs : List Register} (h : Changes rs s t) {r : Register} (hr : r ∈ rs)
    (v : HostWord) : Changes rs s (t.setRegister r v) where
  registers q hq := by
    have hne : q ≠ r := fun hqr => hq (hqr ▸ hr)
    rw [get_setRegister, if_neg hne, h.registers q hq]
  stack := h.stack
  contextCycles := h.contextCycles
  memory := h.memory

/-- One more register that is written in part, if it is one of those that may change. -/
theorem Changes.writeRegister {rs : List Register} (h : Changes rs s t) {r : Register} (hr : r ∈ rs)
    (size : Size) (v : BitVec size.bits) : Changes rs s (writeRegister t size r v) :=
  h.setRegister hr _

/-- The flags may change at any time: what is said of changes is about the registers, the stack and
the memory only. -/
theorem Changes.setFlags {rs : List Register} (h : Changes rs s t) (f : Flags) :
    Changes rs s (t.setFlags f) :=
  ⟨h.registers, h.stack, h.contextCycles, h.memory⟩

/-- Whether the host stack is balanced has nothing to do with other registers than `rsp`, so that
code which leaves `rsp` alone is balanced at its end if it is at its start. -/
theorem Changes.isBalanced_eq {rs : List Register} (h : Changes rs s t) (hrs : .rsp ∉ rs) :
    t.isBalanced env = s.isBalanced env := by
  rw [State.isBalanced, State.isBalanced, h.registers .rsp hrs, h.stack]

/-! ### Arithmetic -/

/-- An arithmetic or logical instruction sets the flags and writes its result to the destination. -/
theorem execute_alu {op : AluOp} (hop : op.writes = true) (size : Size) (dst : Register)
    (src : Source) :
    execute env i s (.alu op size dst src) =
      .ok (.next, writeRegister (s.setFlags
        (op.apply (s.registers.read size dst) (sourceValue s size src) s.flags.carry).2) size dst
        (op.apply (s.registers.read size dst) (sourceValue s size src) s.flags.carry).1) := by
  simp only [execute, hop, if_true]
  rfl

/-- A comparison is a subtraction whose result is dropped: it sets the flags and no register. -/
theorem execute_cmp (size : Size) (dst : Register) (src : Source) :
    execute env i s (.alu .cmp size dst src) =
      .ok (.next,
        s.setFlags (Host.subWithBorrow (s.registers.read size dst) (sourceValue s size src)
        false).2) := rfl

/-- A test is a conjunction whose result is dropped: it sets the flags, with the carry cleared, and
no register. -/
theorem execute_test (size : Size) (dst : Register) (src : Source) :
    execute env i s (.test size dst src) =
      .ok (.next,
        s.setFlags (Host.logicFlags (s.registers.read size dst &&& sourceValue s size src))) :=
  rfl

/-- A shift or a rotation by a number of places that is not a multiple of the width. A shift by zero
places is a case of its own, which leaves the flags alone. -/
theorem execute_shift {op : ShiftOp} {size : Size} {amount : Byte}
    (h : ShiftOp.places size.bits amount ≠ 0) (dst : Register) :
    execute env i s (.shift op size dst amount) =
      .ok (.next, (writeRegister s size dst
        (op.move (s.registers.read size dst) (ShiftOp.places size.bits amount) s.flags).1).setFlags
        (op.move (s.registers.read size dst) (ShiftOp.places size.bits amount) s.flags).2) := by
  simp only [execute, ShiftOp.apply, if_neg h]
  rfl

/-- A bit test copies a bit to the carry flag and keeps the other flags. Bits are counted modulo 32,
the width of the operand. -/
theorem execute_bitTest (src : Register) (bit : Byte) :
    execute env i s (.bitTest src bit) =
      .ok (.next, s.setFlags
        { s.flags with carry := (s.registers.get src).getLsbD (bit.toNat % 32) }) := rfl

/-! ### The host stack -/

/-- The later of two values that a register is set to is the one it has. -/
theorem set_set (rs : Registers) (r : Register) (v w : HostWord) :
    (rs.set r v).set r w = rs.set r w :=
  Registers.ext fun q => by
    simp only [Registers.get_set]
    split <;> rfl

theorem set_get (rs : Registers) (r : Register) : rs.set r (rs.get r) = rs :=
  Registers.ext fun q => by
    rw [Registers.get_set]
    split
    · next h => rw [h]
    · rfl

/-- The state with a word on the stack. -/
def State.pushed (s : State σ) (v : HostWord) : State σ :=
  { s with stack := v :: s.stack, registers := s.registers.set .rsp (s.registers.get .rsp - 8) }

/-- A push moves `rsp` down by eight and no other register. -/
@[simp]
theorem get_pushed (s : State σ) (v : HostWord) (q : Register) :
    (s.pushed v).registers.get q =
      if q = .rsp then s.registers.get .rsp - 8 else s.registers.get q :=
  Registers.get_set _ _ _ _

/-- A push on a balanced stack succeeds. An unbalanced one is a trap, since `rsp` would not be where
the words are. -/
theorem push_eq (hs : s.isBalanced env = true) (v : HostWord) :
    s.push env v = .ok (s.pushed v) := by
  rw [State.push, if_pos hs]
  rfl

/-- A stack that is balanced is so after a push: `rsp` has moved by one word, and the list has one
word more. -/
theorem isBalanced_pushed (hs : s.isBalanced env = true) (v : HostWord) :
    (s.pushed v).isBalanced env = true := by
  have hrsp : s.registers.get .rsp = env.stackTop - BitVec.ofNat 64 (8 * s.stack.length) := by
    simpa [State.isBalanced] using hs
  simp only [State.isBalanced, State.pushed, Registers.get_set, if_true, hrsp, List.length_cons,
    beq_iff_eq, Nat.mul_add, BitVec.ofNat_add, BitVec.sub_sub]
  rfl

/-- A word that was pushed is popped again, and the state is then the one before the push. -/
theorem pop_pushed (hs : s.isBalanced env = true) (v : HostWord) :
    (s.pushed v).pop env = .ok (v, s) := by
  rw [State.pop, if_pos (isBalanced_pushed hs v)]
  simp only [State.pushed, Registers.get_set, if_true, set_set, BitVec.sub_add_cancel, set_get]

/-- The state without the word on top of the stack, below which there are others. -/
def State.popped (s : State σ) (rest : List HostWord) : State σ :=
  { s with stack := rest, registers := s.registers.set .rsp (s.registers.get .rsp + 8) }

/-- A pop moves `rsp` up by eight and no other register. -/
theorem get_popped (s : State σ) (rest : List HostWord) (q : Register) :
    (s.popped rest).registers.get q =
      if q = .rsp then s.registers.get .rsp + 8 else s.registers.get q :=
  Registers.get_set _ _ _ _

/-- The word on top of the stack is popped, and the rest of the stack stays. -/
theorem pop_eq (hs : s.isBalanced env = true) {v : HostWord} {rest : List HostWord}
    (hstack : s.stack = v :: rest) : s.pop env = .ok (v, s.popped rest) := by
  rw [State.pop, if_pos hs, hstack]
  rfl

/-- A stack that is balanced is so after a pop: the word that `rsp` moves up by is the one that the
list loses. -/
theorem isBalanced_popped (hs : s.isBalanced env = true) {v : HostWord} {rest : List HostWord}
    (hstack : s.stack = v :: rest) : (s.popped rest).isBalanced env = true := by
  have hrsp : s.registers.get .rsp = env.stackTop - BitVec.ofNat 64 (8 * (rest.length + 1)) := by
    simpa [State.isBalanced, hstack] using hs
  have hword : BitVec.ofNat 64 (8 * (rest.length + 1)) = BitVec.ofNat 64 (8 * rest.length) + 8 :=
    BitVec.ofNat_add _ _
  simp only [State.isBalanced, State.popped, Registers.get_set, if_true, hrsp, hword, beq_iff_eq]
  rw [← BitVec.sub_sub, BitVec.sub_add_cancel]

/-- The flags can be **captured** in a register, by a push of the flags and a pop of the register:
this leaves the stack and the flags as they are. -/
theorem runs_capture (hs : s.isBalanced env = true) (r : Register) :
    Runs env i [.pushFlags, .pop r] s [] (s.setRegister r s.flags.toWord) := by
  have hpush : execute env i s .pushFlags = .ok (.next, s.pushed s.flags.toWord) := by
    rw [execute, push_eq hs]
    rfl
  have hpop : execute env i (s.pushed s.flags.toWord) (.pop r) =
      .ok (.next, s.setRegister r s.flags.toWord) := by
    rw [execute, pop_pushed hs]
    rfl
  exact .quiet hpush rfl (.quiet hpop rfl (.nil _))

/-- The flags can be **reloaded** from a register, by a push of the register and a pop of the flags.
What the flags word does not name is lost. -/
theorem runs_reload (hs : s.isBalanced env = true) (r : Register) :
    Runs env i [.push r, .popFlags] s [] (s.setFlags (.ofWord (s.registers.get r))) := by
  have hpush : execute env i s (.push r) = .ok (.next, s.pushed (s.registers.get r)) := by
    rw [execute, push_eq hs]
    rfl
  have hpop : execute env i (s.pushed (s.registers.get r)) .popFlags =
      .ok (.next, s.setFlags (.ofWord (s.registers.get r))) := by
    rw [execute, pop_pushed hs]
    rfl
  exact .quiet hpush rfl (.quiet hpop rfl (.nil _))

end Dynarec.Machine
