import Dynarec.Proofs.Assembly.Reach
import Dynarec.Proofs.Machine.Control

/-!
# The host stack

Generated code keeps at most one word on the host stack: the host flags on their way from one place
to another, or the cycle counter during the call of a handler. Code whose pieces without branches
start and end with none (`Code.keepsStack`) never has more than one, whichever way it is executed
(`shallow_path`), so what it writes to the host stack is one of the two words below the stack
pointer on entry (`written_below`).
-/

namespace Dynarec

open Bridge (MemoryInterface)
open Host (Condition Instruction)
open Assembly (Code)

variable {σ : Type}

namespace Machine

variable {env : Environment} {i : MemoryInterface σ}

/-! ### One instruction -/

/-- A write to guest memory or to the context leaves the host stack as it is. -/
theorem stack_writeMemory {s t : State σ} {size : Host.Size} {a : HostWord} {v : BitVec size.bits}
    (h : writeMemory env s size a v = .ok t) : t.stack = s.stack := by
  unfold writeMemory at h
  split at h
  · cases h
    rfl
  · cases h
    rfl
  · split at h
    · cases h
      rfl
    · cases h
  · cases h

/-- A push that succeeds has put its word on top of the host stack, which was balanced. -/
theorem stack_push {s t : State σ} {v : HostWord} (h : s.push env v = .ok t) :
    t.stack = v :: s.stack ∧ s.isBalanced env = true := by
  rw [State.push] at h
  split at h
  · cases h
    exact ⟨rfl, ‹_›⟩
  · cases h

/-- A pop takes the word off the top of the host stack. -/
theorem stack_pop {s t : State σ} {v : HostWord} (h : s.pop env = .ok (v, t)) :
    s.stack = v :: t.stack := by
  rw [State.pop] at h
  split at h
  · split at h
    · cases h
    · rename_i hstack
      cases h
      exact hstack
  · cases h

/-- A write that succeeds is to a place of the window or of the execution context. -/
theorem isSome_locate_of_writeMemory {s t : State σ} {size : Host.Size} {a : HostWord}
    {v : BitVec size.bits} (h : writeMemory env s size a v = .ok t) :
    (locate env.layout (size.bits / 8) a).isSome = true := by
  cases hlocate : locate env.layout (size.bits / 8) a with
  | some place => rfl
  | none =>
    unfold writeMemory at h
    rw [hlocate] at h
    cases size <;> cases h

/-- A handler is called with a **balanced and aligned** stack, and leaves it alone: what is on the
stack after the call is what was on it before. -/
theorem stack_callHandler {handler : Bridge.Handler} {s t : State σ}
    (h : callHandler env i handler s = .ok t) :
    t.stack = s.stack ∧ s.isBalanced env = true ∧ (s.registers.get .rsp).setWidth 4 = 0#4 := by
  rw [callHandler] at h
  split at h
  · rename_i hguard
    cases h
    simp only [Bool.and_eq_true, beq_iff_eq] at hguard
    exact ⟨rfl, hguard.1.1, hguard.1.2⟩
  · cases h

theorem map_eq_ok {α β : Type} {e : Except Trap α} {f : α → β} {b : β} (h : e.map f = .ok b) :
    ∃ a, e = .ok a ∧ f a = b := by
  cases e with
  | error trap => cases h
  | ok a => exact ⟨a, rfl, Except.ok.inj h⟩

/-- A call is the call of a handler: no other address can be called without a trap. -/
theorem callHandler_of_execute {target : Option Host.Place} {s t : State σ} {flow : Flow}
    (h : execute env i s (.call target) = .ok (flow, t)) :
    ∃ handler, callHandler env i handler s = .ok t := by
  rcases target with _ | r | m
  · cases h
  · cases h
  · rw [execute] at h
    split at h
    · obtain ⟨u, hu, heq⟩ := map_eq_ok h
      cases heq
      exact ⟨_, hu⟩
    · cases h

/-- The number of words on the host stack **after one instruction** is the one that can be told from
the instruction and the number before it. -/
theorem length_stack_execute {instruction : Instruction} {s t : State σ} {flow : Flow} {depth : Nat}
    (h : execute env i s instruction = .ok (flow, t))
    (hdepth : instruction.depthAfter? s.stack.length = some depth) : t.stack.length = depth := by
  have hmap {α : Type} {e : Except Trap α} {f : α → State σ}
      (he : e.map (fun v => (Flow.next, f v)) = .ok (flow, t))
      (hf : ∀ v, (f v).stack = s.stack) : t.stack = s.stack := by
    obtain ⟨v, -, heq⟩ := map_eq_ok he
    cases heq
    exact hf v
  cases instruction with
  | pushFlags | push src =>
    obtain ⟨u, hu, heq⟩ := map_eq_ok h
    cases heq
    obtain ⟨hempty, rfl⟩ := Option.ite_some_none_eq_some.mp hdepth
    rw [(stack_push hu).1, List.length_cons, hempty]
  | popFlags | pop dst =>
    obtain ⟨⟨v, u⟩, hu, heq⟩ := map_eq_ok h
    cases heq
    obtain ⟨hone, rfl⟩ := Option.ite_some_none_eq_some.mp hdepth
    rw [stack_pop hu] at hone
    exact Nat.succ.inj hone
  | call target =>
    obtain ⟨handler, hcall⟩ := callHandler_of_execute h
    obtain ⟨hone, rfl⟩ := Option.ite_some_none_eq_some.mp hdepth
    rw [(stack_callHandler hcall).1, hone]
  | ret =>
    obtain ⟨hempty, rfl⟩ := Option.ite_some_none_eq_some.mp hdepth
    rw [(eq_of_execute_ret h).2.1, hempty]
  -- all others leave the host stack alone
  | store size dst src =>
    obtain ⟨u, hu, heq⟩ := map_eq_ok h
    cases heq
    rw [stack_writeMemory hu]
    exact Option.some.inj hdepth
  | load size dst src =>
    rw [hmap h fun v => rfl]
    exact Option.some.inj hdepth
  | movzx wide dst src =>
    have hstack : t.stack = s.stack := by
      cases wide <;> cases src
      · cases h
        rfl
      · exact hmap h fun v => rfl
      · cases h
        rfl
      · exact hmap h fun v => rfl
    rw [hstack]
    exact Option.some.inj hdepth
  | alu op size dst src =>
    have hstack : t.stack = s.stack := by
      rw [execute] at h
      cases h
      split <;> rfl
    rw [hstack]
    exact Option.some.inj hdepth
  | branch condition width d =>
    have hstack : t.stack = s.stack := by
      rw [execute] at h
      split at h <;> (cases h; rfl)
    rw [hstack]
    exact Option.some.inj hdepth
  | _ =>
    cases h
    exact Option.some.inj hdepth

/-! ### Memory that is written -/

/-- Which host **memory an instruction writes**: so many bytes from an address on. A call pushes the
return address. -/
def written? (s : State σ) : Instruction → Option (HostWord × Nat)
  | .store size m _ => some (effectiveAddress s.registers m, size.bits / 8)
  | .push _ | .pushFlags | .call _ => some (s.registers.get .rsp - 8, 8)
  | _ => none

/-- An instruction writes to the window, to the execution context, or **one of two words below the
stack pointer on entry**. Nothing is pushed on a stack that has a word already, and a call puts its
return address below that word. -/
theorem written_below {instruction : Instruction} {s t : State σ} {flow : Flow} {depth : Nat}
    (h : execute env i s instruction = .ok (flow, t))
    (hdepth : instruction.depthAfter? s.stack.length = some depth) {a : HostWord} {n : Nat}
    (hwritten : written? s instruction = some (a, n)) :
    (locate env.layout n a).isSome = true ∨
      n = 8 ∧ (a = env.stackTop - 8 ∨ a = env.stackTop - 16) := by
  have hrsp (hbalanced : s.isBalanced env = true) :
      s.registers.get .rsp = env.stackTop - BitVec.ofNat 64 (8 * s.stack.length) :=
    eq_of_beq hbalanced
  cases instruction with
  | store size m src =>
    cases hwritten
    obtain ⟨u, hu, -⟩ := map_eq_ok h
    exact .inl (isSome_locate_of_writeMemory hu)
  | push src | pushFlags =>
    cases hwritten
    obtain ⟨u, hu, -⟩ := map_eq_ok h
    obtain ⟨hempty, -⟩ := Option.ite_some_none_eq_some.mp hdepth
    refine .inr ⟨rfl, .inl ?_⟩
    rw [hrsp (stack_push hu).2, hempty]
    simp
  | call target =>
    cases hwritten
    obtain ⟨handler, hcall⟩ := callHandler_of_execute h
    obtain ⟨hone, -⟩ := Option.ite_some_none_eq_some.mp hdepth
    refine .inr ⟨rfl, .inr ?_⟩
    rw [hrsp (stack_callHandler hcall).2.1, hone, BitVec.sub_sub]
    rfl
  | _ => cases hwritten

/-! ### Structured code -/

/-- Whether a path starts and ends with an **empty host stack**, and never has more than one word on
it. -/
structure Path.Shallow (π : Path σ) : Prop where
  visits : ∀ v ∈ π.visits, ∃ depth, v.instruction.depthAfter? v.state.stack.length = some depth
  through : ∀ t, π.outcome = .ok (.through, t) → t.stack = []

/-- Two paths, one after the other, have at most one word on the host stack if both have, and the
first leaves it empty. -/
theorem Path.Shallow.andThen {π : Path σ} {f : State σ → Path σ} (h : π.Shallow)
    (hf : ∀ s, s.stack = [] → (f s).Shallow) : (π.andThen f).Shallow := by
  rcases π.through_or_final with ⟨s, hs⟩ | ⟨hfinal, -⟩
  · have hrest := hf s (h.through s hs)
    rw [andThen_through hs]
    exact ⟨fun v hv => (List.mem_append.mp hv).elim (h.visits v) (hrest.visits v), hrest.through⟩
  · rwa [hfinal]

/-- A branch has nothing to do with the host stack. -/
theorem Path.shallow_branch (offset : Nat) (condition : Option Condition) (width : BranchWidth)
    (distance : Nat) {s : State σ} (hs : s.stack = []) :
    (Path.visit (branchVisit offset condition width distance s)).Shallow where
  visits v hv := by
    rw [List.mem_singleton.mp hv]
    exact ⟨_, rfl⟩
  through t ht := by
    cases ht
    exact hs

section Shallow

variable (env : Environment) (i : MemoryInterface σ)

/-- Instructions without branches: the depth is known at each visit, and it is the expected one at
the end. -/
theorem depth_straightPath {is : List Instruction} {s : State σ} {depth : Nat}
    (h : Assembly.depthAfter? s.stack.length is = some depth) (offset : Nat) :
    (∀ v ∈ (straightPath env i offset is s).visits,
        ∃ d, v.instruction.depthAfter? v.state.stack.length = some d) ∧
      ∀ t, (straightPath env i offset is s).outcome = .ok (.through, t) →
        t.stack.length = depth := by
  induction is generalizing s offset with
  | nil =>
    refine ⟨fun v hv => (by cases hv), fun t ht => ?_⟩
    cases ht
    exact Option.some.inj h
  | cons instruction is ih =>
    obtain ⟨d, hd, hrest⟩ := Option.bind_eq_some_iff.mp h
    have hone : ∀ v ∈ [(⟨offset, instruction.canonical, s⟩ : Visit σ)],
        ∃ d, v.instruction.depthAfter? v.state.stack.length = some d := by
      intro v hv
      rw [List.mem_singleton.mp hv]
      exact ⟨d, by rw [Instruction.depthAfter?_canonical, hd]⟩
    rw [straightPath]
    rcases hexecute : execute env i s instruction with trap | ⟨_ | _ | _, t⟩
    · exact ⟨hone, fun t ht => by cases ht⟩
    · rw [← length_stack_execute hexecute hd] at hrest
      obtain ⟨hvisits, hthrough⟩ := ih hrest (offset + instruction.length)
      exact ⟨fun v hv => (List.mem_cons.mp hv).elim
        (fun he => hone v (List.mem_singleton.mpr he)) (hvisits v), hthrough⟩
    · exact ⟨hone, fun t ht => by cases ht⟩
    · exact ⟨hone, fun t ht => by cases ht⟩

/-- Instructions that keep the host stack make a shallow path: their depths are known at each visit,
and so no push is made on a word. -/
theorem shallow_straightPath {is : List Instruction} (his : Assembly.keepsStack is = true)
    (offset : Nat) {s : State σ} (hs : s.stack = []) :
    (straightPath env i offset is s).Shallow := by
  have hdepth : Assembly.depthAfter? s.stack.length is = some 0 := by
    rw [hs]
    exact eq_of_beq his
  obtain ⟨hvisits, hthrough⟩ := depth_straightPath env i hdepth offset
  exact ⟨hvisits, fun t ht => List.length_eq_zero_iff.mp (hthrough t ht)⟩

/-- A row of tests is shallow if each of the tests is and both of its continuations are. -/
theorem shallow_testsPath {distance : Nat} {slow fast : State σ → Path σ}
    {tests : List (List Instruction × Condition)}
    (htests : ∀ t ∈ tests, Assembly.keepsStack t.1 = true)
    (hslow : ∀ t, t.stack = [] → (slow t).Shallow) (hfast : ∀ t, t.stack = [] → (fast t).Shallow)
    (offset : Nat) {s : State σ} (hs : s.stack = []) :
    (testsPath env i distance slow fast offset tests s).Shallow := by
  induction tests generalizing offset s with
  | nil => exact hfast s hs
  | cons test tests ih =>
    obtain ⟨is, condition⟩ := test
    have his := htests (is, condition) List.mem_cons_self
    refine (shallow_straightPath env i his offset hs).andThen fun t ht => ?_
    refine (Path.shallow_branch _ _ _ _ ht).andThen fun u hu => ?_
    split
    · exact hslow u hu
    · exact ih (fun t' ht' => htests t' (List.mem_cons_of_mem _ ht')) _ hu

/-- Code that starts and ends with an empty host stack has **at most one word** on it in between.
The induction is on the code, and its leaves are `shallow_straightPath`. -/
theorem shallow_path {c : Code} (hc : c.keepsStack = true) (offset : Nat) {s : State σ}
    (hs : s.stack = []) : (c.path env i offset s).Shallow := by
  induction c generalizing offset s with
  | straight is => exact shallow_straightPath env i hc offset hs
  | seq first second ihf ihs =>
    obtain ⟨hfirst, hsecond⟩ := Bool.and_eq_true_iff.mp hc
    exact (ihf hfirst offset hs).andThen fun t ht => ihs hsecond _ ht
  | skip condition width body ih =>
    refine (Path.shallow_branch _ _ _ _ hs).andThen fun t ht => ?_
    split
    · exact ⟨fun v hv => (by cases hv), fun u hu => by cases hu; exact ht⟩
    · exact ih hc _ ht
  | choose tests fast slow ihf ihs =>
    simp only [Code.keepsStack, Bool.and_eq_true, List.all_eq_true] at hc
    obtain ⟨⟨htests, hfast⟩, hslow⟩ := hc
    exact shallow_testsPath env i htests (fun t ht => ihs hslow _ ht)
      (fun t ht => (ihf hfast _ ht).andThen fun u hu => Path.shallow_branch _ _ _ _ hu) offset hs

end Shallow

end Machine

end Dynarec
