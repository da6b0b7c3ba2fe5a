import Dynarec.Proofs.Assembly.Layout
import Dynarec.Proofs.Machine.Trace

/-!
# Paths through structured code

`Code.path` executes structured code as what it says, without bytes and displacements: a skip looks
at the condition, a choice goes through its tests. Its result is a **path**: the visits, and whether
control falls through the end of the code or has returned.

`Follows.code` ties this to machine code. Wherever the bytes of structured code stand in a program,
a run that reaches them follows the path and goes on after them. One visit takes one unit of fuel,
and there are at most as many visits as bytes (`Code.visits_length_le`), so a run of a whole block
never runs out of it.
-/

namespace Dynarec

open Bridge (MemoryInterface)
open Host (Instruction Program Condition)
open Assembly (Code branchOver branchLength branchLength_pos straightBytes straightBytes_cons
  testBytes reach)

variable {σ : Type}

namespace Machine

/-! ### Paths -/

/-- How a piece of code is left. -/
inductive Ending
  /-- Through its end. -/
  | through
  /-- By a return. -/
  | returned
  deriving DecidableEq

/-- What happens in a piece of code. -/
structure Path (σ : Type) where
  visits : List (Visit σ)
  outcome : Except Trap (Ending × State σ)

namespace Path

/-- The path that visits one instruction, which changes nothing. -/
def visit (v : Visit σ) : Path σ := ⟨[v], .ok (.through, v.state)⟩

/-- A path and, if it leads **through** the end, what comes after it. -/
def andThen (π : Path σ) (f : State σ → Path σ) : Path σ :=
  match π.outcome with
  | .ok (.through, s) => ⟨π.visits ++ (f s).visits, (f s).outcome⟩
  | _ => π

/-- A trace that starts with a path. -/
def resume (π : Path σ) (f : State σ → List (Visit σ) × Except Trap (State σ)) :
    List (Visit σ) × Except Trap (State σ) :=
  match π.outcome with
  | .error trap => (π.visits, .error trap)
  | .ok (.returned, s) => (π.visits, .ok s)
  | .ok (.through, s) => (π.visits ++ (f s).1, (f s).2)

/-- After a path that leads through its end, the visits are joined and the outcome is that of what
comes after it. -/
theorem andThen_through {π : Path σ} {s : State σ} (h : π.outcome = .ok (.through, s))
    (f : State σ → Path σ) : π.andThen f = ⟨π.visits ++ (f s).visits, (f s).outcome⟩ := by
  rw [andThen, h]

/-- A trace that starts with a path which leads through its end goes on from the state there. -/
theorem resume_through {π : Path σ} {s : State σ} (h : π.outcome = .ok (.through, s))
    (f : State σ → List (Visit σ) × Except Trap (State σ)) :
    π.resume f = (π.visits ++ (f s).1, (f s).2) := by
  rw [resume, h]

/-- A path either leads through the end, and then on, or ends what comes after it: by a return or by
a trap, whatever was to follow. -/
theorem through_or_final (π : Path σ) :
    (∃ s, π.outcome = .ok (.through, s)) ∨
      (∀ f, π.andThen f = π) ∧ ∀ f g, π.resume f = π.resume g := by
  obtain ⟨visits, trap | ⟨_ | _, s⟩⟩ := π
  · exact .inr ⟨fun _ => rfl, fun _ _ => rfl⟩
  · exact .inl ⟨s, rfl⟩
  · exact .inr ⟨fun _ => rfl, fun _ _ => rfl⟩

/-- Paths one after another can be grouped in either way. -/
theorem andThen_assoc (π : Path σ) (f g : State σ → Path σ) :
    (π.andThen f).andThen g = π.andThen fun s => (f s).andThen g := by
  obtain ⟨visits, trap | ⟨_ | _, s⟩⟩ := π
  · rfl
  · rcases hf : f s with ⟨visits', trap | ⟨_ | _, t⟩⟩ <;> simp only [andThen, hf, List.append_assoc]
  · rfl

end Path

/-! ### Structured code -/

section Paths

variable (env : Environment) (i : MemoryInterface σ)

/-- The path through **instructions without branches** that start at an offset. -/
def straightPath : (offset : Nat) → List Instruction → State σ → Path σ
  | _, [], s => ⟨[], .ok (.through, s)⟩
  | offset, instruction :: rest, s =>
    let visit : Visit σ := ⟨offset, instruction.canonical, s⟩
    match execute env i s instruction with
    | .error trap => ⟨[visit], .error trap⟩
    | .ok (.ret, s) => ⟨[visit], .ok (.returned, s)⟩
    | .ok (.jump _, _) => ⟨[visit], .error (.badInstruction offset)⟩
    | .ok (.next, s) =>
      let π := straightPath (offset + instruction.length) rest s
      ⟨visit :: π.visits, π.outcome⟩

/-- The visit of a **branch** over a number of bytes. -/
def branchVisit (offset : Nat) (condition : Option Condition) (width : BranchWidth) (distance : Nat)
    (s : State σ) : Visit σ :=
  ⟨offset, .branch condition width (BitVec.ofNat 32 distance), s⟩

/-- The path through the **tests** of a choice, whose slow alternative starts `distance` bytes after
their end. -/
def testsPath (distance : Nat) (slow fast : State σ → Path σ) :
    (offset : Nat) → List (List Instruction × Condition) → State σ → Path σ
  | _, [], s => fast s
  | offset, (instructions, condition) :: tests, s =>
    let here := offset + (straightBytes instructions).length
    (straightPath env i offset instructions s).andThen fun s =>
      (Path.visit
        (branchVisit here (some condition) .near ((testBytes distance tests).length + distance)
        s)).andThen fun s =>
        if condition.holds s.flags then slow s
        else testsPath distance slow fast (here + branchLength (some condition) .near) tests s

end Paths

end Machine

namespace Assembly.Code

open Machine

/-- **The path through structured code** that starts at an offset. -/
def path (env : Environment) (i : MemoryInterface σ) : Code → (offset : Nat) → State σ → Path σ
  | straight instructions, offset, s => straightPath env i offset instructions s
  | seq first second, offset, s =>
    (first.path env i offset s).andThen (second.path env i (offset + first.bytes.length))
  | skip condition width body, offset, s =>
    (Path.visit (branchVisit offset (some condition) width body.bytes.length s)).andThen fun s =>
      if condition.holds s.flags then ⟨[], .ok (.through, s)⟩
      else body.path env i (offset + branchLength (some condition) width) s
  | choose tests fast slow, offset, s =>
    let distance := fast.bytes.length + branchLength none .near
    let start := offset + (testBytes distance tests).length
    testsPath env i distance (slow.path env i (start + distance))
      (fun s => (fast.path env i start s).andThen fun s =>
        Path.visit (branchVisit (start + fast.bytes.length) none .near slow.bytes.length s))
      offset tests s

/-- The path through two pieces of code is that through the first and then, where it leads through
the end, that through the second, which starts as many bytes later as the first has. -/
theorem path_append (env : Environment) (i : MemoryInterface σ) (c d : Code) (offset : Nat)
    (s : State σ) :
    (c ++ d).path env i offset s =
      (c.path env i offset s).andThen (d.path env i (offset + c.bytes.length)) := rfl

end Assembly.Code

namespace Machine

/-! ### Machine code follows the path -/

section Follows

variable (env : Environment) (i : MemoryInterface σ) (p : Program)

/-- A run from an offset and a state **follows** a path and goes on at another offset if the path
leads through its end. -/
def Follows (offset : Nat) (s : State σ) (π : Path σ) (after : Nat) : Prop :=
  ∀ fuel, traceFrom env i p (π.visits.length + fuel) offset s =
    π.resume (traceFrom env i p fuel after)

variable {env i p}

/-- Two paths, one after the other: the run follows the first up to where the second starts, with
the fuel that is left. -/
theorem Follows.andThen {o₁ o₂ o₃ : Nat} {s : State σ} {π : Path σ} {f : State σ → Path σ}
    (h : Follows env i p o₁ s π o₂)
    (hf : ∀ t, π.outcome = .ok (.through, t) → Follows env i p o₂ t (f t) o₃) :
    Follows env i p o₁ s (π.andThen f) o₃ := by
  intro fuel
  rcases π.through_or_final with ⟨t, ht⟩ | ⟨hfinal, hresume⟩
  · rw [Path.andThen_through ht, List.length_append, Nat.add_assoc, h, Path.resume_through ht,
      hf t ht]
    rcases hfu : (f t).outcome with trap | ⟨_ | _, u⟩ <;> simp [Path.resume, hfu]
  · rw [hfinal, h]
    exact hresume _ _

/-- A result that goes on with the next instruction is no jump. -/
theorem map_next_ne_jump {α : Type} (e : Except Trap α) (f : α → State σ) (d : BitVec 32)
    (t : State σ) : e.map (fun v => (Flow.next, f v)) ≠ .ok (.jump d, t) := by
  cases e <;> simp [Except.map]

/-- Only branches jump: any other instruction goes on to the next one, returns, or traps. -/
theorem execute_ne_jump {instruction : Instruction}
    (h : ∀ condition width displacement, instruction ≠ .branch condition width displacement)
    (s : State σ) (d : BitVec 32) (t : State σ) :
    execute env i s instruction ≠ .ok (.jump d, t) := by
  cases instruction with
  | branch c w d => exact absurd rfl (h c w d)
  | ret =>
    rw [execute]
    split
    · split <;> simp
    · simp
  | movzx wide dst src =>
    cases wide <;> cases src
    · simp [execute]
    · exact map_next_ne_jump _ _ d t
    · simp [execute]
    · exact map_next_ne_jump _ _ d t
  | call target =>
    rcases target with _ | r | m
    · simp [execute]
    · simp [execute]
    · rw [execute]
      split
      · exact map_next_ne_jump _ _ d t
      · simp
  | pushFlags => exact map_next_ne_jump _ _ d t
  | popFlags => exact map_next_ne_jump _ _ d t
  | push src => exact map_next_ne_jump _ _ d t
  | pop dst => exact map_next_ne_jump _ _ d t
  | load size dst src => exact map_next_ne_jump _ _ d t
  | store size dst src => exact map_next_ne_jump _ _ d t
  | _ => simp [execute]

/-- The code of a program has a piece of machine code at an offset. -/
def At (p : Program) (offset : Nat) (code : List Byte) : Prop :=
  ∃ pre post, p.code = pre ++ code ++ post ∧ pre.length = offset

/-- The first of two pieces of machine code is where both are. -/
theorem At.left {offset : Nat} {c d : List Byte} (h : At p offset (c ++ d)) : At p offset c := by
  obtain ⟨pre, post, hp, hpre⟩ := h
  exact ⟨pre, d ++ post, by rw [hp]; simp only [List.append_assoc], hpre⟩

/-- The second of two pieces of machine code is after the bytes of the first. -/
theorem At.right {offset : Nat} {c d : List Byte} (h : At p offset (c ++ d)) :
    At p (offset + c.length) d := by
  obtain ⟨pre, post, hp, rfl⟩ := h
  exact ⟨pre ++ c, post, by rw [hp]; simp only [List.append_assoc], List.length_append⟩

/-- An instruction is fetched where its bytes are, in the form in which it is read back from
them. -/
theorem At.fetch {offset : Nat} {instruction : Instruction} (h : At p offset instruction.encode)
    (hi : instruction.IsEncodable) :
    p.fetch offset = some (instruction.canonical, instruction.length) := by
  obtain ⟨pre, post, hp, rfl⟩ := h
  rw [Program.fetch_eq, hp, List.append_assoc, List.drop_left, Instruction.decode_encode hi]

/-- Instructions without branches are followed one after another, each of them where the one before
it ends. -/
theorem Follows.straight {is : List Instruction} (his : ∀ j ∈ is, j.IsPlain) {offset : Nat}
    (hp : At p offset (straightBytes is)) (s : State σ) :
    Follows env i p offset s (straightPath env i offset is s)
      (offset + (straightBytes is).length) := by
  induction is generalizing offset s with
  | nil =>
    intro fuel
    simp [straightPath, Path.resume]
  | cons instruction is ih =>
    intro fuel
    rw [straightBytes_cons] at hp
    have hplain := his instruction List.mem_cons_self
    have hfetch := hp.left.fetch hplain.encodable
    have hexecute := execute_canonical hplain.fits env i s
    rw [straightPath]
    -- a trap and a return end the path, the next instruction continues it, and there are no jumps
    rcases hresult : execute env i s instruction with trap | ⟨_ | d | _, t⟩
    · simp only [List.length_singleton, Nat.add_comm 1, traceFrom, hfetch, hexecute, hresult]
      rfl
    · have hrest := ih (fun j hj => his j (List.mem_cons_of_mem _ hj)) hp.right t fuel
      rw [← Instruction.length] at hrest
      rw [straightBytes_cons, List.length_append, ← Instruction.length, ← Nat.add_assoc]
      simp only [List.length_cons, Nat.add_right_comm _ 1, traceFrom, hfetch, hexecute,
        hresult, hrest]
      rcases hπ : (straightPath env i (offset + instruction.length) is t).outcome
        with trap | ⟨_ | _, u⟩ <;> simp [Path.resume, hπ]
    · exact absurd hresult (execute_ne_jump hplain.straight s d t)
    · simp only [List.length_singleton, Nat.add_comm 1, traceFrom, hfetch, hexecute, hresult]
      rfl

/-! ### Branches -/

/-- The distance of a branch that reaches is not negative as a displacement, so that a branch leads
forward. -/
theorem toInt_ofNat_of_reach {width : BranchWidth} {distance : Nat} (h : distance < reach width) :
    (BitVec.ofNat 32 distance).toInt = distance := by
  have hlt : distance < 0x80000000 := by
    cases width
    · exact Nat.lt_trans h (by decide)
    · exact h
  rw [BitVec.toInt_eq_toNat_of_lt (by rw [BitVec.toNat_ofNat]; omega), BitVec.toNat_ofNat,
    Nat.mod_eq_of_lt (by omega)]

/-- A branch goes over a number of bytes if its condition holds, and to the instruction after it if
not. -/
theorem Follows.branch {condition : Option Condition} {width : BranchWidth} {distance offset : Nat}
    (hreach : distance < reach width) (hp : At p offset (branchOver condition width distance))
    (s : State σ) :
    Follows env i p offset s (Path.visit (branchVisit offset condition width distance s))
      (offset + branchLength condition width +
        if (condition.map (·.holds s.flags)).getD true then distance else 0) := by
  have hfetch := hp.fetch (Assembly.isEncodable_branch hreach condition)
  have hlength : (Instruction.branch condition width (BitVec.ofNat 32 distance)).length =
      branchLength condition width := Assembly.length_branchOver _ _ _
  intro fuel
  simp only [Path.visit, List.length_singleton, Nat.add_comm 1, traceFrom, hfetch, execute, hlength,
    Instruction.canonical]
  by_cases hholds : (condition.map (·.holds s.flags)).getD true = true
  · -- the target is formed in the integers, and is not negative
    have htarget : ((offset + branchLength condition width : Nat) : Int) +
        (BitVec.ofNat 32 distance).toInt =
          ((offset + branchLength condition width + distance : Nat) : Int) := by
      rw [toInt_ofNat_of_reach hreach]
      omega
    simp only [hholds, if_true, htarget, Int.toNat_natCast,
      if_neg (Int.not_lt.mpr (Int.natCast_nonneg _))]
    rfl
  · simp only [hholds]
    rfl

/-- A conditional branch and what comes after it. The two continuations end at the same offset,
which is where the run goes on. -/
theorem Follows.fork {condition : Condition} {width : BranchWidth} {distance offset after : Nat}
    (taken other : State σ → Path σ) (hreach : distance < reach width)
    (hp : At p offset (branchOver (some condition) width distance)) {s : State σ}
    (htaken : Follows env i p (offset + branchLength (some condition) width + distance) s
      (taken s) after)
    (hother : Follows env i p (offset + branchLength (some condition) width) s (other s) after) :
    Follows env i p offset s
      ((Path.visit (branchVisit offset (some condition) width distance s)).andThen fun s =>
        if condition.holds s.flags then taken s else other s) after := by
  refine (Follows.branch hreach hp s).andThen fun t ht => ?_
  obtain rfl : s = t := by
    cases ht
    rfl
  by_cases hholds : condition.holds s.flags = true
  · simpa only [Option.map_some, Option.getD_some, hholds, if_true] using htaken
  · simpa only [Option.map_some, Option.getD_some, hholds, Bool.false_eq_true,
      if_false, Nat.add_zero]
      using hother

/-! ### Structured code -/

/-- The tests of a choice: each of them is a branch to the slow alternative, so that the distances
of the branches grow by the tests that are still to come. The induction is on the tests. -/
theorem Follows.tests {distance offset after : Nat} {slow fast : State σ → Path σ}
    {tests : List (List Instruction × Condition)} (htests : ∀ t ∈ tests, ∀ j ∈ t.1, j.IsPlain)
    (hp : At p offset (testBytes distance tests))
    (hreach : (testBytes distance tests).length + distance < reach .near)
    (hslow : ∀ t, Follows env i p (offset + (testBytes distance tests).length + distance) t
      (slow t) after)
    (hfast : ∀ t, Follows env i p (offset + (testBytes distance tests).length) t (fast t) after)
    (s : State σ) :
    Follows env i p offset s (testsPath env i distance slow fast offset tests s) after := by
  induction tests generalizing offset s with
  | nil => exact hfast s
  | cons test tests ih =>
    obtain ⟨is, condition⟩ := test
    simp only [testBytes, List.length_append, Assembly.length_branchOver] at hp hreach hslow hfast
    refine (Follows.straight (htests (is, condition) List.mem_cons_self) hp.left.left s).andThen
      fun t _ => ?_
    refine Follows.fork slow _ (by omega) hp.left.right ?_ ?_
    · have := hslow t
      rwa [show offset + ((straightBytes is).length + branchLength (some condition) .near +
        (testBytes distance tests).length) + distance = offset + (straightBytes is).length +
          branchLength (some condition) .near + ((testBytes distance tests).length + distance) by
        omega] at this
    · have hright := hp.right
      rw [List.length_append, Assembly.length_branchOver, ← Nat.add_assoc] at hright
      exact ih (fun t' ht' => htests t' (List.mem_cons_of_mem _ ht')) hright (by omega)
        (by simpa only [Nat.add_assoc] using hslow) (by simpa only [Nat.add_assoc] using hfast) t

/-- **Machine code follows structured code** wherever it stands. The induction is on the structured
code, whose pieces are at the offsets that the lengths of their bytes give. -/
theorem Follows.code {c : Code} (hc : c.Fits) {offset : Nat} (hp : At p offset c.bytes)
    (s : State σ) :
    Follows env i p offset s (c.path env i offset s) (offset + c.bytes.length) := by
  induction c generalizing offset s with
  | straight is => exact Follows.straight hc hp s
  | seq first second ihf ihs =>
    rw [Code.bytes] at hp ⊢
    refine (ihf hc.1 hp.left s).andThen fun t _ => ?_
    rw [List.length_append, ← Nat.add_assoc]
    exact ihs hc.2 hp.right t
  | skip condition width body ih =>
    obtain ⟨hbody, hreach⟩ := hc
    rw [Code.bytes] at hp ⊢
    rw [List.length_append, Assembly.length_branchOver, ← Nat.add_assoc]
    refine Follows.fork (fun s => ⟨[], .ok (.through, s)⟩) _ hreach hp.left ?_ ?_
    · intro fuel
      simp [Path.resume]
    · have hright := hp.right
      rw [Assembly.length_branchOver] at hright
      exact ih hbody hright s
  | choose tests fast slow ihf ihs =>
    obtain ⟨htests, hfast, hslow, hreach, hreach'⟩ := hc
    rw [Code.bytes] at hp ⊢
    -- where the three pieces after the tests stand
    have hfastAt := hp.left.left.right
    have hjumpAt := hp.left.right
    have hslowAt := hp.right
    simp only [List.length_append, Assembly.length_branchOver, ← Nat.add_assoc] at hjumpAt hslowAt ⊢
    refine Follows.tests htests hp.left.left.left hreach (fun t => ?_) (fun t => ?_) s
    · simpa only [← Nat.add_assoc] using ihs hslow hslowAt t
    · -- the fast alternative ends with a branch over the slow one
      refine (ihf hfast hfastAt t).andThen fun u _ => ?_
      simpa using Follows.branch hreach' hjumpAt u

end Follows

/-! ### Bounds -/

/-- Whether the visits of a path lie **between two offsets** and are no more than the bytes
there. -/
structure Path.Within (π : Path σ) (lower upper : Nat) : Prop where
  count : lower + π.visits.length ≤ upper
  offsets : ∀ v ∈ π.visits, lower ≤ v.offset ∧ v.offset < upper

namespace Path

/-- Bounds can be made wider. -/
theorem Within.mono {π : Path σ} {l l' u u' : Nat} (h : π.Within l u) (hl : l' ≤ l) (hu : u ≤ u') :
    π.Within l' u' :=
  ⟨by have := h.count; omega, fun v hv => by have := h.offsets v hv; omega⟩

/-- One path after another, the second of which starts where the first ends or later. -/
theorem Within.andThen {π : Path σ} {f : State σ → Path σ} {l m u : Nat} (h : π.Within l m)
    (hm : m ≤ u) (hf : ∀ s, (f s).Within m u) : (π.andThen f).Within l u := by
  rcases π.through_or_final with ⟨s, hs⟩ | ⟨hfinal, _⟩
  · rw [andThen_through hs]
    have hcount := (hf s).count
    refine ⟨by have := h.count; simp only [List.length_append]; omega, fun v hv => ?_⟩
    rcases List.mem_append.mp hv with hv | hv
    · have := h.offsets v hv
      omega
    · have := (hf s).offsets v hv
      have := h.count
      omega
  · rw [hfinal]
    exact h.mono (Nat.le_refl _) hm

/-- No visits are within any bounds. -/
theorem within_nil (o : Nat) (outcome : Except Trap (Ending × State σ)) :
    (⟨[], outcome⟩ : Path σ).Within o o :=
  ⟨Nat.le_refl _, fun v hv => by cases hv⟩

/-- One visit is within the bytes of its instruction, of which there is at least one. -/
theorem within_singleton (v : Visit σ) {n : Nat} (hn : 0 < n)
    (outcome : Except Trap (Ending × State σ)) :
    (⟨[v], outcome⟩ : Path σ).Within v.offset (v.offset + n) :=
  ⟨by simp only [List.length_singleton]; omega, fun w hw => by rw [List.mem_singleton.mp hw]; omega⟩

end Path

section Bounds

variable (env : Environment) (i : MemoryInterface σ)

/-- The visit of a branch is within the bytes of the branch. -/
theorem within_visit_branch (offset : Nat) (condition : Option Condition) (width : BranchWidth)
    (distance : Nat) (s : State σ) :
    (Path.visit (branchVisit offset condition width distance s)).Within offset
      (offset + branchLength condition width) :=
  Path.within_singleton _ (branchLength_pos condition width) _

/-- The visits of instructions without branches lie inside of their bytes, and are no more than
these, as no instruction is empty. -/
theorem within_straightPath {is : List Instruction} (his : ∀ j ∈ is, j.IsPlain) (offset : Nat)
    (s : State σ) :
    (straightPath env i offset is s).Within offset (offset + (straightBytes is).length) := by
  induction is generalizing offset s with
  | nil => exact Path.within_nil _ _
  | cons instruction is ih =>
    have hpos := Instruction.length_pos (his instruction List.mem_cons_self).encodable
    rw [straightPath, straightBytes_cons, List.length_append, ← Instruction.length, ← Nat.add_assoc]
    have hone (outcome) : (⟨[⟨offset, instruction.canonical, s⟩], outcome⟩ : Path σ).Within offset
        (offset + instruction.length + (straightBytes is).length) :=
      (Path.within_singleton ⟨offset, instruction.canonical, s⟩ hpos outcome).mono (Nat.le_refl _)
        (Nat.le_add_right _ _)
    rcases execute env i s instruction with trap | ⟨_ | d | _, t⟩
    · exact hone _
    · have hvisit := Path.within_singleton ⟨offset, instruction.canonical, s⟩ hpos
        (.ok (.through, t))
      have hrest :=
        ih (fun j hj => his j (List.mem_cons_of_mem _ hj)) (offset + instruction.length) t
      exact hvisit.andThen (f := fun _ => straightPath env i (offset + instruction.length) is t)
        (Nat.le_add_right _ _) fun _ => hrest
    · exact hone _
    · exact hone _

/-- A row of tests and what follows it: both continuations stay behind the tests. -/
theorem within_testsPath {distance offset upper : Nat} {slow fast : State σ → Path σ}
    {tests : List (List Instruction × Condition)} (htests : ∀ t ∈ tests, ∀ j ∈ t.1, j.IsPlain)
    (hslow : ∀ t, (slow t).Within (offset + (testBytes distance tests).length) upper)
    (hfast : ∀ t, (fast t).Within (offset + (testBytes distance tests).length) upper)
    (s : State σ) :
    (testsPath env i distance slow fast offset tests s).Within offset upper := by
  induction tests generalizing offset s with
  | nil => exact hfast s
  | cons test tests ih =>
    obtain ⟨is, condition⟩ := test
    simp only [testBytes, List.length_append, Assembly.length_branchOver] at hslow hfast
    have hupper := (hslow s).count
    have hplain : ∀ j ∈ is, j.IsPlain := htests (is, condition) List.mem_cons_self
    refine (within_straightPath env i hplain offset s).andThen (by omega) fun t => ?_
    refine (within_visit_branch _ _ _ _ t).andThen (by omega) fun u => ?_
    split
    · exact (hslow u).mono (by omega) (Nat.le_refl _)
    · exact ih (fun t' ht' => htests t' (List.mem_cons_of_mem _ ht'))
        (by simpa only [Nat.add_assoc] using hslow) (by simpa only [Nat.add_assoc] using hfast) u

/-- The visits in a piece of code lie **inside of it**, and are no more than its bytes. This bounds
the fuel that a run needs. -/
theorem within_path {c : Code} (hc : c.Fits) (offset : Nat) (s : State σ) :
    (c.path env i offset s).Within offset (offset + c.bytes.length) := by
  induction c generalizing offset s with
  | straight is => exact within_straightPath env i hc offset s
  | seq first second ihf ihs =>
    rw [Code.bytes, List.length_append, ← Nat.add_assoc]
    exact (ihf hc.1 offset s).andThen (Nat.le_add_right _ _) fun t => ihs hc.2 _ t
  | skip condition width body ih =>
    rw [Code.bytes, List.length_append, Assembly.length_branchOver, ← Nat.add_assoc]
    refine (within_visit_branch _ _ _ _ s).andThen (Nat.le_add_right _ _) fun t => ?_
    split
    · exact (Path.within_nil _ _).mono (Nat.le_refl _) (Nat.le_add_right _ _)
    · exact ih hc.1 _ t
  | choose tests fast slow ihf ihs =>
    obtain ⟨htests, hfast, hslow, -, -⟩ := hc
    simp only [Code.bytes, List.length_append, Assembly.length_branchOver]
    refine within_testsPath env i htests (fun t => ?_) (fun t => ?_) s
    · exact (ihs hslow _ t).mono (by omega) (by omega)
    · refine (ihf hfast _ t).andThen (by omega) fun u => ?_
      exact (within_visit_branch _ _ _ _ u).mono (Nat.le_refl _) (by omega)

/-! ### Visits at an offset -/

variable {env i} {c d : Code} {offset : Nat} {s : State σ} {v : Visit σ}

/-- How pieces of code are grouped makes no difference to the path through them. -/
theorem path_append_assoc (b c d : Code) (offset : Nat) (s : State σ) :
    (b ++ c ++ d).path env i offset s = (b ++ (c ++ d)).path env i offset s := by
  rw [Code.path_append, Code.path_append, Code.path_append env i b, Path.andThen_assoc]
  refine congrArg _ (funext fun t => ?_)
  rw [Code.path_append, Code.bytes_append, List.length_append, Nat.add_assoc]

/-- What is visited in the first of two pieces of code is visited in both. -/
theorem mem_visits_append_left (d : Code) (hv : v ∈ (c.path env i offset s).visits) :
    v ∈ ((c ++ d).path env i offset s).visits := by
  rw [Code.path_append]
  rcases (c.path env i offset s).through_or_final with ⟨t, ht⟩ | ⟨hfinal, -⟩
  · rw [Path.andThen_through ht]
    exact List.mem_append_left _ hv
  · rwa [hfinal]

/-- What is visited in the second of two pieces of code is visited in both, if the first is
passed. -/
theorem mem_visits_append_right {t : State σ}
    (h : (c.path env i offset s).outcome = .ok (.through, t))
    (hv : v ∈ (d.path env i (offset + c.bytes.length) t).visits) :
    v ∈ ((c ++ d).path env i offset s).visits := by
  rw [Code.path_append, Path.andThen_through h]
  exact List.mem_append_right _ hv

/-- A visit before the end of the first of two pieces of code is **in the first**: the second starts
there. -/
theorem mem_visits_left (hd : d.Fits) (hv : v ∈ ((c ++ d).path env i offset s).visits)
    (hlt : v.offset < offset + c.bytes.length) : v ∈ (c.path env i offset s).visits := by
  rw [Code.path_append] at hv
  rcases (c.path env i offset s).through_or_final with ⟨t, ht⟩ | ⟨hfinal, -⟩
  · rw [Path.andThen_through ht] at hv
    refine (List.mem_append.mp hv).resolve_right fun hright => ?_
    have := ((within_path env i hd _ t).offsets v hright).1
    omega
  · rwa [hfinal] at hv

/-- A visit after the end of the first of two pieces of code is **in the second**, after the first
has been passed. -/
theorem mem_visits_right (hc : c.Fits) (hv : v ∈ ((c ++ d).path env i offset s).visits)
    (hle : offset + c.bytes.length ≤ v.offset) :
    ∃ t, (c.path env i offset s).outcome = .ok (.through, t) ∧
      v ∈ (d.path env i (offset + c.bytes.length) t).visits := by
  have hfirst (hleft : v ∈ (c.path env i offset s).visits) : False := by
    have := ((within_path env i hc offset s).offsets v hleft).2
    omega
  rw [Code.path_append] at hv
  rcases (c.path env i offset s).through_or_final with ⟨t, ht⟩ | ⟨hfinal, -⟩
  · rw [Path.andThen_through ht] at hv
    exact ⟨t, ht, (List.mem_append.mp hv).resolve_left hfirst⟩
  · rw [hfinal] at hv
    exact (hfirst hv).elim

variable (env i) in
/-- The first instruction is visited in the state in which the code is entered, even if it traps. -/
theorem exists_mem_visits_straight {is : List Instruction} (his : is ≠ []) (offset : Nat)
    (s : State σ) :
    ∃ v ∈ ((Code.straight is).path env i offset s).visits, v.offset = offset ∧ v.state = s := by
  obtain ⟨instruction, rest, rfl⟩ := List.exists_cons_of_ne_nil his
  rw [Code.path, straightPath]
  rcases execute env i s instruction with trap | ⟨_ | d | _, t⟩ <;>
    exact ⟨_, List.mem_cons_self, rfl, rfl⟩

/-- A visit at the start of instructions is that of the first one, in the state in which they are
entered: the offsets of the others are larger. -/
theorem state_of_mem_visits_straight {is : List Instruction} (his : ∀ j ∈ is, j.IsPlain)
    (hv : v ∈ ((Code.straight is).path env i offset s).visits) (ho : v.offset = offset) :
    v.state = s := by
  cases is with
  | nil => cases hv
  | cons instruction rest =>
    have hpos := Instruction.length_pos (his instruction List.mem_cons_self).encodable
    have hfirst (hv : v ∈ [(⟨offset, instruction.canonical, s⟩ : Visit σ)]) : v.state = s := by
      rw [List.mem_singleton.mp hv]
    rw [Code.path, straightPath] at hv
    rcases hexecute : execute env i s instruction with trap | ⟨_ | d | _, t⟩ <;> rw [hexecute] at hv
    · exact hfirst hv
    · refine hfirst (List.mem_singleton.mpr ((List.mem_cons.mp hv).resolve_right fun hrest => ?_))
      have hlater := ((within_straightPath env i
        (fun j hj => his j (List.mem_cons_of_mem _ hj)) (offset + instruction.length) t).offsets v
          hrest).1
      omega
    · exact hfirst hv
    · exact hfirst hv

variable (env i) in
/-- Skipped code starts with a visit of its branch, whether the branch is taken or not. -/
theorem branchVisit_mem_visits_skip (condition : Condition) (width : BranchWidth) (d : Code)
    (offset : Nat) (s : State σ) :
    branchVisit offset (some condition) width d.bytes.length s ∈
      ((Code.skip condition width d).path env i offset s).visits := by
  rw [Code.path, Path.andThen_through rfl]
  exact List.mem_append_left _ List.mem_cons_self

/-- The visit at the start of skipped code is its **branch**, in the state in which the code is
entered. -/
theorem mem_visits_skip {condition : Condition} {width : BranchWidth} (hd : d.Fits)
    (hv : v ∈ ((Code.skip condition width d).path env i offset s).visits) (ho : v.offset = offset) :
    v = branchVisit offset (some condition) width d.bytes.length s := by
  rw [Code.path, Path.andThen_through rfl] at hv
  rcases List.mem_append.mp hv with hv | hv
  · exact List.mem_singleton.mp hv
  · split at hv
    · cases hv
    · have := ((within_path env i hd _ s).offsets v hv).1
      have := branchLength_pos (some condition) width
      omega

end Bounds

/-! ### Whole runs -/

/-- **A program made of structured code** runs along its path. There is fuel enough, since there are
no more visits than bytes. -/
theorem trace_eq_path {env : Environment} {i : MemoryInterface σ} {p : Program} {c : Code}
    (hc : c.Fits) (hp : p.code = c.bytes) {s t : State σ}
    (h : (c.path env i 0 s).outcome = .ok (.returned, t)) :
    trace env i p s = ((c.path env i 0 s).visits, .ok t) := by
  have hcount := (within_path env i hc 0 s).count
  have hfollows : Follows env i p 0 s (c.path env i 0 s) (0 + c.bytes.length) :=
    Follows.code hc ⟨[], [], by rw [hp]; simp, rfl⟩ s
  replace hfollows := hfollows (p.code.length - (c.path env i 0 s).visits.length)
  rw [hp, Nat.add_sub_cancel' (by omega)] at hfollows
  rw [trace, hp, hfollows, Path.resume, h]

end Machine

end Dynarec
