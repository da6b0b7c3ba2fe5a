import Dynarec.Proofs.Machine.Path

/-!
# Rules for structured code

`Runs` and `Yields` say what a piece of code does when it is executed in a given state: with which
events, in which state it is left, and how. They hold at every offset, so the rules below compose
them without looking at bytes.

What a piece of code leaves alone is said by `Changes`: the two states agree but for the listed
registers and the host flags.
-/

namespace Dynarec

open Bridge (MemoryInterface)
open Host (Instruction Condition Register Registers Size Memory)
open Assembly (Code)

namespace Machine

variable {σ : Type}

section Rules

variable (env : Environment) (i : MemoryInterface σ)

/-- Executing instructions without branches leads from one state **through** to another. -/
inductive Runs : List Instruction → State σ → List Event → State σ → Prop
  | nil (s : State σ) : Runs [] s [] s
  | cons {instruction : Instruction} {is : List Instruction} {s t u : State σ} {es : List Event} :
      execute env i s instruction = .ok (.next, t) → Runs is t es u →
        Runs (instruction :: is) s (eventsOf env s instruction ++ es) u

/-- Executing structured code leads from one state to another, where it is left. -/
def Yields (c : Code) (s : State σ) (es : List Event) (e : Ending) (t : State σ) : Prop :=
  ∀ offset, (c.path env i offset s).outcome = .ok (e, t) ∧
    events env (c.path env i offset s).visits = es

/-- The tests of a choice lead to its slow alternative or not. -/
inductive Tests : List (List Instruction × Condition) → State σ → Bool → State σ → Prop
  | done (s : State σ) : Tests [] s false s
  | slow {is : List Instruction} {condition : Condition} {s t : State σ}
      (tests : List (List Instruction × Condition)) :
      Runs env i is s [] t → condition.holds t.flags = true →
        Tests ((is, condition) :: tests) s true t
  | pass {is : List Instruction} {condition : Condition} {s t u : State σ} {b : Bool}
      {tests : List (List Instruction × Condition)} :
      Runs env i is s [] t → condition.holds t.flags = false → Tests tests t b u →
        Tests ((is, condition) :: tests) s b u

variable {env i}

/-! ### Instructions -/

/-- An instruction that does nothing to guest memory, in front of others: the events are those of
the others. -/
theorem Runs.quiet {instruction : Instruction} {is : List Instruction} {s t u : State σ}
    {es : List Event} (h : execute env i s instruction = .ok (.next, t))
    (hquiet : eventsOf env s instruction = []) (ht : Runs env i is t es u) :
    Runs env i (instruction :: is) s es u := by
  have := Runs.cons h ht
  rwa [hquiet] at this

/-- One instruction alone. -/
theorem Runs.single {instruction : Instruction} {s t : State σ} {es : List Event}
    (h : execute env i s instruction = .ok (.next, t)) (hevents : eventsOf env s instruction = es) :
    Runs env i [instruction] s es t := by
  have := Runs.cons h (Runs.nil t)
  rwa [hevents, List.append_nil] at this

/-- Instructions one after another: the events come one after another too. -/
theorem Runs.append {is js : List Instruction} {s t u : State σ} {es fs : List Event}
    (h : Runs env i is s es t) (h' : Runs env i js t fs u) :
    Runs env i (is ++ js) s (es ++ fs) u := by
  induction h with
  | nil => exact h'
  | cons he _ ih =>
    rw [List.append_assoc]
    exact .cons he (ih h')

/-- Instructions that do nothing to guest memory, in front of others. -/
theorem Runs.append_quiet {is js : List Instruction} {s t u : State σ} {fs : List Event}
    (h : Runs env i is s [] t) (h' : Runs env i js t fs u) : Runs env i (is ++ js) s fs u :=
  h.append h'

/-- Instructions that run are passed on their path, which has the same events, wherever they
stand. -/
theorem Runs.path {is : List Instruction} {s t : State σ} {es : List Event}
    (h : Runs env i is s es t)
    (offset : Nat) : (straightPath env i offset is s).outcome = .ok (.through, t) ∧
      events env (straightPath env i offset is s).visits = es := by
  induction h generalizing offset with
  | nil => exact ⟨rfl, rfl⟩
  | @cons instruction is s t u es he _ ih =>
    obtain ⟨houtcome, hevents⟩ := ih (offset + instruction.length)
    rw [straightPath, he]
    exact ⟨houtcome, by rw [events_cons, hevents, eventsOf_canonical]⟩

/-! ### Structured code -/

/-- Structured code without branches does what its instructions do. -/
theorem Yields.straight {is : List Instruction} {s t : State σ} {es : List Event}
    (h : Runs env i is s es t) : Yields env i (.straight is) s es .through t := h.path

/-- Empty code does nothing. -/
theorem Yields.empty (s : State σ) : Yields env i .empty s [] .through s := .straight (.nil s)

/-- Instructions and a return, at which the host stack has to be balanced and empty. -/
theorem Yields.leave {is : List Instruction} {s t : State σ} {es : List Event}
    (h : Runs env i is s es t) (hbalanced : t.isBalanced env = true) (hstack : t.stack = []) :
    Yields env i (.straight (is ++ [.ret])) s es .returned t := fun offset => by
  rw [Code.path]
  induction h generalizing offset with
  | nil s =>
    rw [List.nil_append, straightPath, execute, if_pos hbalanced, hstack]
    exact ⟨rfl, rfl⟩
  | @cons instruction is s t u es he _ ih =>
    obtain ⟨houtcome, hevents⟩ := ih hbalanced hstack (offset + instruction.length)
    rw [List.cons_append, straightPath, he]
    exact ⟨houtcome, by rw [events_cons, hevents, eventsOf_canonical]⟩

/-- One piece of code after another, if the first is left through its end. -/
theorem Yields.append {c d : Code} {s t u : State σ} {es fs : List Event} {e : Ending}
    (h : Yields env i c s es .through t) (h' : Yields env i d t fs e u) :
    Yields env i (c ++ d) s (es ++ fs) e u := fun offset => by
  obtain ⟨houtcome, hevents⟩ := h offset
  obtain ⟨houtcome', hevents'⟩ := h' (offset + c.bytes.length)
  rw [Code.path_append, Path.andThen_through houtcome]
  exact ⟨houtcome', by rw [events_append, hevents, hevents']⟩

/-- A piece of code that does nothing to guest memory, in front of another. -/
theorem Yields.append_quiet {c d : Code} {s t u : State σ} {fs : List Event} {e : Ending}
    (h : Yields env i c s [] .through t) (h' : Yields env i d t fs e u) :
    Yields env i (c ++ d) s fs e u := h.append h'

/-- A piece of code that does nothing to guest memory, after another. -/
theorem Yields.append_quiet_right {c d : Code} {s t u : State σ} {es : List Event} {e : Ending}
    (h : Yields env i c s es .through t) (h' : Yields env i d t [] e u) :
    Yields env i (c ++ d) s es e u := by
  have hyields := h.append h'
  rwa [List.append_nil] at hyields

/-- What comes after code that returns is not executed. -/
theorem Yields.append_returned {c : Code} (d : Code) {s t : State σ} {es : List Event}
    (h : Yields env i c s es .returned t) : Yields env i (c ++ d) s es .returned t :=
      fun offset => by
  obtain ⟨houtcome, hevents⟩ := h offset
  rw [Code.path_append, Path.andThen, houtcome]
  exact ⟨houtcome, hevents⟩

/-- Code that is skipped: the condition holds, and nothing happens. -/
theorem Yields.skipped {condition : Condition} (width : BranchWidth) (body : Code) {s : State σ}
    (h : condition.holds s.flags = true) :
    Yields env i (.skip condition width body) s [] .through s := fun offset => by
  rw [Code.path, Path.andThen_through (s := s) rfl, h]
  exact ⟨rfl, rfl⟩

/-- Code that is not skipped: the condition does not hold, and the body does what it does. -/
theorem Yields.entered {condition : Condition} (width : BranchWidth) {body : Code} {s t : State σ}
    {es : List Event} {e : Ending} (h : condition.holds s.flags = false)
    (hbody : Yields env i body s es e t) : Yields env i (.skip condition width body) s es e t :=
    fun offset => by
  obtain ⟨houtcome, hevents⟩ := hbody (offset + Assembly.branchLength (some condition) width)
  rw [Code.path, Path.andThen_through (s := s) rfl, h]
  exact ⟨houtcome, hevents⟩

/-- The path through tests, once it is known where they lead: it is that of the one alternative or
of the other, with the visits of the tests in front, which have no events. -/
theorem Tests.path {tests : List (List Instruction × Condition)} {s t : State σ} {b : Bool}
    (h : Tests env i tests s b t) (distance : Nat) (slow fast : State σ → Path σ) (offset : Nat) :
    (testsPath env i distance slow fast offset tests s).outcome =
      (bif b then slow t else fast t).outcome ∧
      events env (testsPath env i distance slow fast offset tests s).visits =
        events env (bif b then slow t else fast t).visits := by
  induction h generalizing offset with
  | done s => exact ⟨rfl, rfl⟩
  | slow tests hruns hholds =>
    obtain ⟨houtcome, hevents⟩ := hruns.path offset
    rw [testsPath, Path.andThen_through houtcome, Path.andThen_through rfl]
    simp only [Path.visit, branchVisit, hholds, if_true, events_append, hevents]
    exact ⟨rfl, rfl⟩
  | @pass is condition s t u b tests hruns hholds _ ih =>
    obtain ⟨houtcome, hevents⟩ := hruns.path offset
    obtain ⟨houtcome', hevents'⟩ :=
      ih (offset + (Assembly.straightBytes is).length + Assembly.branchLength
        (some condition) .near)
    rw [testsPath, Path.andThen_through houtcome, Path.andThen_through rfl]
    simp only [Path.visit, branchVisit, hholds, Bool.false_eq_true, if_false,
      events_append, hevents]
    exact ⟨houtcome', hevents'⟩

/-- A choice whose tests all fail does what its fast alternative does. -/
theorem Yields.fast {tests : List (List Instruction × Condition)} {fast : Code} (slow : Code)
    {s t u : State σ} {es : List Event} (htests : Tests env i tests s false t)
    (h : Yields env i fast t es .through u) :
      Yields env i (.choose tests fast slow) s es .through u :=
    fun offset => by
  obtain ⟨houtcome, hevents⟩ := h (offset +
    (Assembly.testBytes (fast.bytes.length + Assembly.branchLength none .near) tests).length)
  rw [Code.path]
  refine ⟨(htests.path _ _ _ _).1.trans ?_, (htests.path _ _ _ _).2.trans ?_⟩
  · rw [cond_false, Path.andThen_through houtcome]
    rfl
  · rw [cond_false, Path.andThen_through houtcome, events_append, hevents]
    exact List.append_nil es

/-- A choice one of whose tests succeeds does what its slow alternative does, which may be left by a
return. -/
theorem Yields.slow {tests : List (List Instruction × Condition)} (fast : Code) {slow : Code}
    {s t u : State σ} {es : List Event} {e : Ending} (htests : Tests env i tests s true t)
    (h : Yields env i slow t es e u) : Yields env i (.choose tests fast slow) s es e u :=
    fun offset => by
  rw [Code.path]
  exact ⟨(htests.path _ _ _ _).1.trans (h _).1, (htests.path _ _ _ _).2.trans (h _).2⟩

/-! ### Programs -/

/-- **A program made of structured code** does what the structured code does: it ends in the same
state, with the same events. -/
theorem Yields.trace {c : Code} {s t : State σ} {es : List Event}
    (h : Yields env i c s es .returned t)
    (hc : c.Fits) {p : Host.Program} (hp : p.code = c.bytes) :
    run env i p s = .ok t ∧ events env (Machine.trace env i p s).1 = es := by
  obtain ⟨houtcome, hevents⟩ := h 0
  have htrace := trace_eq_path hc hp houtcome
  rw [← trace_snd, htrace]
  exact ⟨rfl, hevents⟩

end Rules

/-! ### What code leaves alone -/

/-- Two states that differ **at most** in the given registers and in the flags. -/
structure Changes (rs : List Register) (s t : State σ) : Prop where
  registers : ∀ r, r ∉ rs → t.registers.get r = s.registers.get r
  stack : t.stack = s.stack
  contextCycles : t.contextCycles = s.contextCycles
  memory : t.memory = s.memory

namespace Changes

/-- A state differs from itself in nothing. -/
theorem refl (rs : List Register) (s : State σ) : Changes rs s s := ⟨fun _ _ => rfl, rfl, rfl, rfl⟩

/-- Changes one after another are changes of the same registers. -/
theorem trans {rs : List Register} {s t u : State σ} (h : Changes rs s t) (h' : Changes rs t u) :
    Changes rs s u where
  registers r hr := (h'.registers r hr).trans (h.registers r hr)
  stack := h'.stack.trans h.stack
  contextCycles := h'.contextCycles.trans h.contextCycles
  memory := h'.memory.trans h.memory

/-- More registers may be allowed to change. -/
theorem mono {rs qs : List Register} {s t : State σ} (h : Changes rs s t) (hrs : ∀ r ∈ rs, r ∈ qs) :
    Changes qs s t :=
  ⟨fun r hr => h.registers r fun hr' => hr (hrs r hr'), h.stack, h.contextCycles, h.memory⟩

end Changes

end Machine

end Dynarec
