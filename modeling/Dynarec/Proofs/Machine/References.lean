import Dynarec.Proofs.Machine.Depth

/-!
# Memory references

The **references** of a host instruction are the pieces of host memory that it reads or writes
(`references`): its memory operand, and the host stack where it pushes or pops. A run refers to the
window, to fields of the execution context, and to no word of the host stack that it has not pushed
itself, but for the return address at its end (`Returning.confined`). One visit does so because it
does not trap (`confined_of_execute`); what carries the rest along the run is that every word that
is on the host stack has been **pushed** earlier (`Backed`).
-/

namespace Dynarec.Machine

open Bridge (Handler Layout MemoryInterface)
open Host (Instruction Program Size)

variable {σ : Type}

/-! ### References -/

/-- A piece of host memory that is read or written. -/
structure Reference where
  address : HostWord
  /-- The number of bytes, from the address on. -/
  bytes : Nat
  write : Bool
  deriving DecidableEq

/-- The **references** of an instruction in a state. Popping reads the word at the stack pointer,
and so does a return; pushing writes the word below it, and so does a call. -/
def references (s : State σ) : Instruction → List Reference
  | .load size _ m => [⟨effectiveAddress s.registers m, size.bits / 8, false⟩]
  | .store size m _ => [⟨effectiveAddress s.registers m, size.bits / 8, true⟩]
  | .movzx false _ (.memory m) => [⟨effectiveAddress s.registers m, 1, false⟩]
  | .movzx true _ (.memory m) => [⟨effectiveAddress s.registers m, 2, false⟩]
  | .call (some (.memory m)) =>
    [⟨effectiveAddress s.registers m, 8, false⟩, ⟨s.registers.get .rsp - 8, 8, true⟩]
  | .call _ | .push _ | .pushFlags => [⟨s.registers.get .rsp - 8, 8, true⟩]
  | .pop _ | .popFlags | .ret => [⟨s.registers.get .rsp, 8, false⟩]
  | _ => []

/-- Whether a reference is to one or two bytes that lie in the **window**, all of them. -/
structure Reference.InWindow (layout : Layout) (r : Reference) : Prop where
  bytes : r.bytes = 1 ∨ r.bytes = 2
  base_le : layout.windowBase.toNat ≤ r.address.toNat
  le_top : r.address.toNat + r.bytes ≤ layout.windowBase.toNat + 0x10000

/-- Whether a reference is to a field of the **execution context**. Only the cycle counter is
written. -/
structure Reference.InContext (layout : Layout) (r : Reference) : Prop where
  bytes : r.bytes = 8
  field : r.address = layout.context + Bridge.deviceField.setWidth 64 ∨
    r.address = layout.context + Bridge.cyclesField.setWidth 64 ∨
    ∃ handler : Handler, r.address = layout.context + handler.field.setWidth 64
  written : r.write = true → r.address = layout.context + Bridge.cyclesField.setWidth 64

/-- The reference to the `k`-th word of the **host stack**, counted down from the return address,
which is the one of number 0. -/
def stackSlot (env : Environment) (k : Nat) (write : Bool) : Reference :=
  ⟨env.stackTop - BitVec.ofNat 64 (8 * k), 8, write⟩

/-! ### Addresses -/

section Addresses

variable {env : Environment} {s t : State σ} {size : Size} {a o : HostWord} {count : Nat}

/-- What is located in the window lies there without wrapping around, the window being aligned to
its size. A word that would reach over the end of the window is not located in it. -/
theorem inWindow_of_locate (haligned : env.layout.windowBase.setWidth 16 = 0#16) {b : Address}
    (hcount : count = 1 ∨ count = 2) (h : locate env.layout count a = some (.window b))
    (write : Bool) : Reference.InWindow env.layout ⟨a, count, write⟩ := by
  have hoffset : (a - env.layout.windowBase).toNat + count ≤ 0x10000 := by
    rw [locate] at h
    split at h
    · assumption
    · split at h
      · cases h
      · cases h
  have hbase : env.layout.windowBase.toNat % 0x10000 = 0 := by
    have hlow := congrArg BitVec.toNat haligned
    rwa [BitVec.toNat_setWidth] at hlow
  rw [BitVec.toNat_sub] at hoffset
  have ha := a.isLt
  have hwindow := env.layout.windowBase.isLt
  exact ⟨hcount, by dsimp only; omega, by dsimp only; omega⟩

/-- What is located in the context lies at an offset from its start. -/
theorem eq_add_of_locate (h : locate env.layout count a = some (.context o)) :
    a = env.layout.context + o := by
  rw [locate] at h
  split at h
  · cases h
  · split at h
    · cases h
      rw [BitVec.add_comm, BitVec.sub_add_cancel]
    · cases h

/-- What is **read** lies in the window or is a field of the context: a read of anything else
traps. -/
theorem reference_of_readMemory (haligned : env.layout.windowBase.setWidth 16 = 0#16)
    {v : BitVec size.bits} (h : readMemory env s size a = .ok v) :
    Reference.InWindow env.layout ⟨a, size.bits / 8, false⟩ ∨
      Reference.InContext env.layout ⟨a, size.bits / 8, false⟩ := by
  unfold readMemory at h
  rcases hlocate : locate env.layout (size.bits / 8) a with _ | b | o
  · rw [hlocate] at h
    cases size <;> cases h
  · rw [hlocate] at h
    cases size with
    | byte => exact .inl (inWindow_of_locate haligned (.inl rfl) hlocate false)
    | word => exact .inl (inWindow_of_locate haligned (.inr rfl) hlocate false)
    | dword | qword => cases h
  · rw [hlocate] at h
    have ha := eq_add_of_locate hlocate
    cases size with
    | byte | word | dword => cases h
    | qword =>
      dsimp only at h
      split at h
      · next hdevice => exact .inr ⟨rfl, .inl (hdevice ▸ ha), nofun⟩
      · split at h
        · next hcycles => exact .inr ⟨rfl, .inr (.inl (hcycles ▸ ha)), nofun⟩
        · cases h

/-- What is **written** lies in the window or is the cycle counter of the context: a write to any
other field traps, and so does one to anything else. -/
theorem reference_of_writeMemory (haligned : env.layout.windowBase.setWidth 16 = 0#16)
    {v : BitVec size.bits} (h : writeMemory env s size a v = .ok t) :
    Reference.InWindow env.layout ⟨a, size.bits / 8, true⟩ ∨
      Reference.InContext env.layout ⟨a, size.bits / 8, true⟩ := by
  unfold writeMemory at h
  rcases hlocate : locate env.layout (size.bits / 8) a with _ | b | o
  · rw [hlocate] at h
    cases size <;> cases h
  · rw [hlocate] at h
    cases size with
    | byte => exact .inl (inWindow_of_locate haligned (.inl rfl) hlocate true)
    | word => exact .inl (inWindow_of_locate haligned (.inr rfl) hlocate true)
    | dword | qword => cases h
  · rw [hlocate] at h
    have ha := eq_add_of_locate hlocate
    cases size with
    | byte | word | dword => cases h
    | qword =>
      dsimp only at h
      split at h
      · next hcycles => exact .inr ⟨rfl, .inr (.inl (hcycles ▸ ha)), fun _ => hcycles ▸ ha⟩
      · cases h

/-- A handler is found at its own field of the context only. -/
theorem eq_field_of_ofField? {handler : Handler} (h : Handler.ofField? o = some handler) :
    o = handler.field.setWidth 64 := by
  unfold Handler.ofField? at h
  repeat' split at h
  all_goals cases h
  all_goals assumption

/-- The entry point of a **handler** is a field of the context, from which a call reads eight
bytes. -/
theorem reference_of_handlerAt {handler : Handler} (h : handlerAt env a = some handler) :
    Reference.InContext env.layout ⟨a, 8, false⟩ := by
  rw [handlerAt] at h
  split at h
  · next o hlocate =>
    have ha := eq_add_of_locate hlocate
    exact ⟨rfl, .inr (.inr ⟨handler, eq_field_of_ofField? h ▸ ha⟩), nofun⟩
  · cases h

end Addresses

/-! ### The host stack -/

section Stack

variable {env : Environment} {i : MemoryInterface σ} {s t : State σ}

/-- The word at the stack pointer of a balanced stack is the last one that was pushed, or the return
address if there is none. -/
theorem stackSlot_of_isBalanced (h : s.isBalanced env = true) (write : Bool) :
    ⟨s.registers.get .rsp, 8, write⟩ = stackSlot env s.stack.length write := by
  have hrsp : s.registers.get .rsp = env.stackTop - BitVec.ofNat 64 (8 * s.stack.length) :=
    eq_of_beq h
  rw [stackSlot, hrsp]

/-- The word below the stack pointer of a balanced stack is the next one to be pushed. -/
theorem stackSlot_below_of_isBalanced (h : s.isBalanced env = true) (write : Bool) :
    ⟨s.registers.get .rsp - 8, 8, write⟩ = stackSlot env (s.stack.length + 1) write := by
  have hrsp : s.registers.get .rsp = env.stackTop - BitVec.ofNat 64 (8 * s.stack.length) :=
    eq_of_beq h
  have hbelow : BitVec.ofNat 64 (8 * s.stack.length) + 8 =
      BitVec.ofNat 64 (8 * (s.stack.length + 1)) := by
    rw [Nat.mul_add, BitVec.ofNat_add]
    rfl
  rw [stackSlot, hrsp, BitVec.sub_sub, hbelow]

/-- A pop that succeeds was made on a balanced stack. -/
theorem isBalanced_of_pop {v : HostWord} (h : s.pop env = .ok (v, t)) :
    s.isBalanced env = true := by
  rw [State.pop] at h
  split at h
  · assumption
  · cases h

/-! ### Runs -/

/-- Whether the words that are on the host stack were **pushed** by earlier visits. -/
def Backed (env : Environment) (earlier : List (Visit σ)) (s : State σ) : Prop :=
  ∀ k < s.stack.length, ∃ u ∈ earlier, stackSlot env (k + 1) true ∈ references u.state u.instruction

/-- One more visit **pushes** the word by which the host stack grows, if it does. The words that
were there before have been pushed by earlier visits. -/
theorem Backed.snoc {earlier : List (Visit σ)} (hback : Backed env earlier s)
    {instruction : Instruction} {flow : Flow} {depth : Nat}
    (h : execute env i s instruction = .ok (flow, t))
    (hdepth : instruction.depthAfter? s.stack.length = some depth) (offset : Nat) :
    Backed env (earlier ++ [⟨offset, instruction, s⟩]) t := by
  have hlength : t.stack.length = depth := length_stack_execute h hdepth
  intro k hk
  rw [hlength] at hk
  by_cases hold : k < s.stack.length
  · obtain ⟨u, hu, hpushed⟩ := hback k hold
    exact ⟨u, List.mem_append_left _ hu, hpushed⟩
  -- the word is new, so the instruction is a push
  cases instruction with
  | push src | pushFlags =>
    obtain ⟨u, hpush, -⟩ := map_eq_ok h
    obtain ⟨hempty, rfl⟩ := Option.ite_some_none_eq_some.mp hdepth
    obtain rfl : k = s.stack.length := by omega
    refine ⟨_, List.mem_append_right earlier List.mem_cons_self, ?_⟩
    rw [← stackSlot_below_of_isBalanced (stack_push hpush).2]
    exact List.mem_cons_self
  | popFlags | pop dst | call target | ret =>
    obtain ⟨hdeep, rfl⟩ := Option.ite_some_none_eq_some.mp hdepth
    omega
  | _ =>
    have hsame : s.stack.length = depth := Option.some.inj hdepth
    omega

/-- Whether a reference of a visit, which comes between others, is **confined**: to the window, to
the context, to words below the return address that the run pushes or has pushed, and to the return
address in the end. -/
inductive Confined (env : Environment) (before after : List (Visit σ)) : Reference → Prop
  | window {r : Reference} : r.InWindow env.layout → Confined env before after r
  | context {r : Reference} : r.InContext env.layout → Confined env before after r
  | pushed {k : Nat} : k = 1 ∨ k = 2 → Confined env before after (stackSlot env k true)
  | popped {u : Visit σ} : u ∈ before → stackSlot env 1 true ∈ references u.state u.instruction →
      Confined env before after (stackSlot env 1 false)
  | returned : after = [] → Confined env before after (stackSlot env 0 false)

/-- What lies in the window or in the context is confined, whatever comes before and after. -/
theorem Confined.of_or {before after : List (Visit σ)} {r : Reference}
    (h : r.InWindow env.layout ∨ r.InContext env.layout) : Confined env before after r :=
  h.elim .window .context

/-- **One visit** that does not trap refers to what it may refer to. A word that is popped is on the
host stack, so an earlier visit has pushed it, and only the last visit takes the return address. -/
theorem confined_of_execute (haligned : env.layout.windowBase.setWidth 16 = 0#16)
    {instruction : Instruction} {flow : Flow} {depth : Nat}
    (h : execute env i s instruction = .ok (flow, t))
    (hdepth : instruction.depthAfter? s.stack.length = some depth) {before after : List (Visit σ)}
    (hback : Backed env before s) (hlast : instruction = .ret → after = []) {r : Reference}
    (hr : r ∈ references s instruction) : Confined env before after r := by
  cases instruction with
  -- memory operands
  | load size dst m =>
    obtain ⟨v, hread, -⟩ := map_eq_ok h
    rw [List.mem_singleton.mp hr]
    exact .of_or (reference_of_readMemory haligned hread)
  | store size m src =>
    obtain ⟨u, hwrite, -⟩ := map_eq_ok h
    rw [List.mem_singleton.mp hr]
    exact .of_or (reference_of_writeMemory haligned hwrite)
  | movzx wide dst src =>
    cases src with
    | register src => cases wide <;> cases hr
    | memory m =>
      cases wide with
      | false =>
        obtain ⟨v, hread, -⟩ := map_eq_ok h
        rw [List.mem_singleton.mp hr]
        exact .of_or (reference_of_readMemory haligned hread)
      | true =>
        obtain ⟨v, hread, -⟩ := map_eq_ok h
        rw [List.mem_singleton.mp hr]
        exact .of_or (reference_of_readMemory haligned hread)
  -- the host stack, which holds one word at most
  | push src | pushFlags =>
    obtain ⟨u, hpush, -⟩ := map_eq_ok h
    obtain ⟨hempty, -⟩ := Option.ite_some_none_eq_some.mp hdepth
    rw [List.mem_singleton.mp hr, stackSlot_below_of_isBalanced (stack_push hpush).2, hempty]
    exact .pushed (.inl rfl)
  | pop dst | popFlags =>
    obtain ⟨⟨v, u⟩, hpop, -⟩ := map_eq_ok h
    obtain ⟨hone, -⟩ := Option.ite_some_none_eq_some.mp hdepth
    obtain ⟨w, hw, hpushed⟩ := hback 0 (hone ▸ Nat.zero_lt_one)
    rw [List.mem_singleton.mp hr, stackSlot_of_isBalanced (isBalanced_of_pop hpop), hone]
    exact .popped hw hpushed
  | ret =>
    obtain ⟨hempty, -⟩ := Option.ite_some_none_eq_some.mp hdepth
    rw [List.mem_singleton.mp hr, stackSlot_of_isBalanced (isBalanced_of_ret h), hempty]
    exact .returned (hlast rfl)
  | call target =>
    obtain ⟨hone, -⟩ := Option.ite_some_none_eq_some.mp hdepth
    rcases target with _ | target | m
    · cases h
    · cases h
    · rw [execute] at h
      split at h
      · next handler hhandler =>
        obtain ⟨u, hcall, -⟩ := map_eq_ok h
        rcases List.mem_cons.mp hr with rfl | hpushed
        · exact .context (reference_of_handlerAt hhandler)
        · rw [List.mem_singleton.mp hpushed,
            stackSlot_below_of_isBalanced (stack_callHandler hcall).2.1, hone]
          exact .pushed (.inr rfl)
      · cases h
  | _ => cases hr

/-- **A run** that returns refers to what it may refer to, visit after visit. The induction is on
the run, and carries along that the words on the host stack were pushed by the visits so far. -/
theorem Returning.confined (haligned : env.layout.windowBase.setWidth 16 = 0#16) {p : Program}
    {offset : Nat} {visits : List (Visit σ)} (h : Returning env i p offset s visits t)
    {earlier : List (Visit σ)} (hback : Backed env earlier s)
    (hdepths : ∀ v ∈ visits, ∃ d, v.instruction.depthAfter? v.state.stack.length = some d)
    {before after : List (Visit σ)} {v : Visit σ} (hsplit : visits = before ++ v :: after)
    {r : Reference} (hr : r ∈ references v.state v.instruction) :
    Confined env (earlier ++ before) after r := by
  induction h generalizing earlier before with
  | ret _ hexecute =>
    obtain ⟨depth, hdepth⟩ := hdepths _ List.mem_cons_self
    obtain ⟨rfl, hv⟩ | ⟨rest, rfl, hv⟩ := List.cons_eq_append_iff.mp hsplit
    · cases hv
      rw [List.append_nil]
      exact confined_of_execute haligned hexecute hdepth hback (fun _ => rfl) hr
    · simp at hv
  | next _ hexecute _ ih | jump _ hexecute _ _ ih =>
    obtain ⟨depth, hdepth⟩ := hdepths _ List.mem_cons_self
    obtain ⟨rfl, hv⟩ | ⟨rest, rfl, hv⟩ := List.cons_eq_append_iff.mp hsplit
    · cases hv
      rw [List.append_nil]
      refine confined_of_execute haligned hexecute hdepth hback (fun hret => ?_) hr
      subst hret
      cases (eq_of_execute_ret hexecute).1
    · rw [← List.singleton_append, ← List.append_assoc]
      exact ih (hback.snoc hexecute hdepth _)
        (fun w hw => hdepths w (List.mem_cons_of_mem _ hw)) hv

end Stack

end Dynarec.Machine
