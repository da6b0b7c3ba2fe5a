import Dynarec.Proofs.Assembly.Entries
import Dynarec.Proofs.Machine.Path

/-!
# Control flow of runs

A run that ends well is **returning** (`Returning`): it goes from one visit to the next, directly or
by a jump, and ends with a return. The visits of structured code are among the entries that a
disassembly of its machine code lists, and in their order (`listed_path`). So no jump leads back or
into the middle of an instruction, and no instruction is executed twice.
-/

namespace Dynarec

open Bridge (MemoryInterface)
open Host (Condition Entry Instruction Program)
open Assembly (Code branchEntry branchLength straightBytes testBytes testEntries)

variable {σ : Type}

namespace Machine

/-! ### Returning runs -/

section Returning

variable (env : Environment) (i : MemoryInterface σ) (p : Program)

/-- A run from an offset in a state that **returns** with another state. -/
inductive Returning : (offset : Nat) → State σ → List (Visit σ) → State σ → Prop
  | ret {offset n : Nat} {instruction : Instruction} {s t : State σ}
      (hfetch : p.fetch offset = some (instruction, n))
      (hexecute : execute env i s instruction = .ok (.ret, t)) :
      Returning offset s [⟨offset, instruction, s⟩] t
  | next {offset n : Nat} {instruction : Instruction} {s t u : State σ} {visits : List (Visit σ)}
      (hfetch : p.fetch offset = some (instruction, n))
      (hexecute : execute env i s instruction = .ok (.next, t))
      (hrest : Returning (offset + n) t visits u) :
      Returning offset s (⟨offset, instruction, s⟩ :: visits) u
  | jump {offset n target : Nat} {instruction : Instruction} {s t u : State σ} {d : BitVec 32}
      {visits : List (Visit σ)} (hfetch : p.fetch offset = some (instruction, n))
      (hexecute : execute env i s instruction = .ok (.jump d, t))
      (htarget : (target : Int) = (offset + n : Nat) + d.toInt)
      (hrest : Returning target t visits u) :
      Returning offset s (⟨offset, instruction, s⟩ :: visits) u

variable {env i p}

/-- A run that ends well is returning: each visit leads to the next one, and the last is a `ret`.
The induction is on the fuel, one step of the processor at a time. -/
theorem returning_of_traceFrom {fuel offset : Nat} {s t : State σ} {visits : List (Visit σ)}
    (h : traceFrom env i p fuel offset s = (visits, .ok t)) :
    Returning env i p offset s visits t := by
  induction fuel generalizing offset s visits with
  | zero => cases h
  | succ fuel ih =>
    rw [traceFrom] at h
    rcases hfetch : p.fetch offset with _ | ⟨instruction, n⟩
    · rw [hfetch] at h
      cases h
    rw [hfetch] at h
    simp only at h
    -- a trap, and the three ways for an instruction to go on
    rcases hexecute : execute env i s instruction with trap | ⟨_ | d | _, u⟩
    · rw [hexecute] at h
      cases h
    · rw [hexecute] at h
      simp only [Prod.mk.injEq] at h
      obtain ⟨rfl, hlast⟩ := h
      exact .next hfetch hexecute (ih (Prod.ext rfl hlast))
    · rw [hexecute] at h
      simp only at h
      split at h
      · cases h
      · rename_i hnonneg
        simp only [Prod.mk.injEq] at h
        obtain ⟨rfl, hlast⟩ := h
        exact .jump hfetch hexecute (Int.toNat_of_nonneg (Int.not_lt.mp hnonneg))
          (ih (Prod.ext rfl hlast))
    · rw [hexecute] at h
      cases h
      exact .ret hfetch hexecute

/-- A return needs an empty host stack, and changes nothing: the address it takes is that of the
caller, which was not pushed by the block. -/
theorem eq_of_execute_ret {s t : State σ} {flow : Flow}
    (h : execute env i s .ret = .ok (flow, t)) : flow = .ret ∧ t = s ∧ s.stack = [] := by
  rw [execute] at h
  split at h
  · split at h
    · rename_i hempty
      cases h
      exact ⟨rfl, rfl, List.isEmpty_iff.mp hempty⟩
    · cases h
  · cases h

/-- A return needs a balanced host stack, so that `rsp` is back where it was when the block was
entered. -/
theorem isBalanced_of_ret {s t : State σ} {flow : Flow}
    (h : execute env i s .ret = .ok (flow, t)) : s.isBalanced env = true := by
  rw [execute] at h
  split at h
  · assumption
  · cases h

/-- Only a return **returns**: every other instruction goes on to the next one, jumps, or traps. -/
theorem eq_ret_of_execute {instruction : Instruction} {s t : State σ}
    (h : execute env i s instruction = .ok (.ret, t)) : instruction = .ret ∧ t = s := by
  have hmap {α : Type} (e : Except Trap α) (f : α → State σ) :
      e.map (fun v => (Flow.next, f v)) ≠ .ok (.ret, t) := by
    cases e <;> simp [Except.map]
  cases instruction with
  | ret => exact ⟨rfl, (eq_of_execute_ret h).2.1⟩
  | branch condition width d =>
    rw [execute] at h
    split at h <;> cases h
  | movzx wide dst src =>
    cases wide <;> cases src
    · cases h
    · exact absurd h (hmap _ _)
    · cases h
    · exact absurd h (hmap _ _)
  | call target =>
    rcases target with _ | r | m
    · cases h
    · cases h
    · rw [execute] at h
      split at h
      · exact absurd h (hmap _ _)
      · cases h
  | pushFlags => exact absurd h (hmap _ _)
  | popFlags => exact absurd h (hmap _ _)
  | push src => exact absurd h (hmap _ _)
  | pop dst => exact absurd h (hmap _ _)
  | load size dst src => exact absurd h (hmap _ _)
  | store size dst src => exact absurd h (hmap _ _)
  | _ => cases h

namespace Returning

variable {offset : Nat} {s t : State σ} {visits : List (Visit σ)}

/-- The first visit is at the offset and in the state with which the run starts. -/
theorem head (h : Returning env i p offset s visits t) :
    ∃ v rest, visits = v :: rest ∧ v.offset = offset ∧ v.state = s := by
  cases h with
  | ret => exact ⟨_, [], rfl, rfl, rfl⟩
  | next _ _ _ => exact ⟨_, _, rfl, rfl, rfl⟩
  | jump _ _ _ _ => exact ⟨_, _, rfl, rfl, rfl⟩

/-- The last visit is that of a **return**, in the state in which the run ends. -/
theorem getLast? (h : Returning env i p offset s visits t) :
    ∃ v, visits.getLast? = some v ∧ v.instruction = .ret ∧ v.state = t := by
  induction h with
  | ret _ hexecute =>
    obtain ⟨rfl, rfl⟩ := eq_ret_of_execute hexecute
    exact ⟨_, rfl, rfl, rfl⟩
  | next _ _ _ ih | jump _ _ _ _ ih =>
    obtain ⟨v, hv, hret⟩ := ih
    exact ⟨v, by rw [List.getLast?_cons, hv]; rfl, hret⟩

/-- A return is made in the state in which the run ends. -/
theorem state_of_ret (h : Returning env i p offset s visits t) {v : Visit σ} (hv : v ∈ visits)
    (hret : v.instruction = .ret) : v.state = t := by
  induction h with
  | ret _ hexecute =>
    rw [List.mem_singleton.mp hv]
    exact (eq_ret_of_execute hexecute).2.symm
  | next _ hexecute _ ih | jump _ hexecute _ _ ih =>
    rcases List.mem_cons.mp hv with rfl | hv
    · simp only at hret
      subst hret
      cases (eq_of_execute_ret hexecute).1
    · exact ih hv

/-- **No visit traps**: a run that ends well has executed the instruction of each of its visits. -/
theorem execute_ok (h : Returning env i p offset s visits t) {v : Visit σ} (hv : v ∈ visits) :
    ∃ flow u, execute env i v.state v.instruction = .ok (flow, u) := by
  induction h with
  | ret _ hexecute =>
    rw [List.mem_singleton.mp hv]
    exact ⟨_, _, hexecute⟩
  | next _ hexecute _ ih | jump _ hexecute _ _ ih =>
    rcases List.mem_cons.mp hv with rfl | hv
    · exact ⟨_, _, hexecute⟩
    · exact ih hv

/-- **A jump** leads to the next visit, which is as far from the end of the jump as its displacement
says. -/
theorem jump_next (h : Returning env i p offset s visits t) {before after : List (Visit σ)}
    {v : Visit σ} (hsplit : visits = before ++ v :: after) {d : BitVec 32} {u : State σ}
    (hjump : execute env i v.state v.instruction = .ok (.jump d, u)) :
    ∃ n w rest, p.fetch v.offset = some (v.instruction, n) ∧ after = w :: rest ∧
      (w.offset : Int) = (v.offset + n : Nat) + d.toInt := by
  induction h generalizing before with
  | ret _ hexecute =>
    obtain ⟨rfl, hv⟩ | ⟨rest, rfl, hv⟩ := List.cons_eq_append_iff.mp hsplit
    · cases hv
      rw [hexecute] at hjump
      cases hjump
    · simp at hv
  | next _ hexecute _ ih =>
    obtain ⟨rfl, hv⟩ | ⟨rest, rfl, hv⟩ := List.cons_eq_append_iff.mp hsplit
    · cases hv
      rw [hexecute] at hjump
      cases hjump
    · exact ih hv
  | jump hfetch hexecute htarget hrest ih =>
    obtain ⟨rfl, hv⟩ | ⟨rest, rfl, hv⟩ := List.cons_eq_append_iff.mp hsplit
    · cases hv
      rw [hexecute] at hjump
      cases hjump
      obtain ⟨w, rest, rfl, rfl, -⟩ := hrest.head
      exact ⟨_, w, rest, hfetch, rfl, htarget⟩
    · exact ih hv

end Returning

/-- A run that ends well has taken **everything off the host stack** that it has put there. -/
theorem isBalanced_of_run {s t : State σ} (h : run env i p s = .ok t) :
    t.isBalanced env = true ∧ t.stack = [] := by
  have hreturning : Returning env i p 0 s (trace env i p s).1 t :=
    returning_of_traceFrom (Prod.ext rfl ((trace_snd env i p s).trans h))
  obtain ⟨v, hlast, hret, rfl⟩ := hreturning.getLast?
  obtain ⟨flow, u, hexecute⟩ := hreturning.execute_ok (List.mem_of_getLast? hlast)
  rw [hret] at hexecute
  exact ⟨isBalanced_of_ret hexecute, (eq_of_execute_ret hexecute).2.2⟩

end Returning

/-! ### Listed visits -/

/-- Where a visit is, and which instruction it executes. -/
def Visit.entry (v : Visit σ) : Entry := ⟨v.offset, v.instruction⟩

/-- Whether the visits of a path are among the entries of a **listing**, in the same order. -/
def Path.Listed (π : Path σ) (listing : List Entry) : Prop :=
  (π.visits.map Visit.entry).Sublist listing

namespace Path

variable {π : Path σ} {listing more : List Entry}

/-- One path after another visits what the one listing has and then what the other has. -/
theorem Listed.andThen {f : State σ → Path σ} (h : π.Listed listing) (hf : ∀ s, (f s).Listed more) :
    (π.andThen f).Listed (listing ++ more) := by
  rcases π.through_or_final with ⟨s, hs⟩ | ⟨hfinal, -⟩
  · rw [andThen_through hs, Listed, List.map_append]
    exact h.append (hf s)
  · rw [hfinal]
    exact List.sublist_append_of_sublist_left h

/-- A path without visits is listed by anything. -/
theorem listed_nil (outcome : Except Trap (Ending × State σ)) (listing : List Entry) :
    (⟨[], outcome⟩ : Path σ).Listed listing := List.nil_sublist _

/-- Entries in front of those that a path visits are skipped. -/
theorem Listed.append_left (h : π.Listed more) (listing : List Entry) :
    π.Listed (listing ++ more) := List.sublist_append_of_sublist_right h

/-- The visit of a branch is that of its entry. -/
theorem listed_branch (offset : Nat) (condition : Option Condition) (width : BranchWidth)
    (distance : Nat) (s : State σ) :
    (visit (branchVisit offset condition width distance s)).Listed
      [branchEntry offset condition width distance] := List.Sublist.refl _

end Path

section Listed

variable (env : Environment) (i : MemoryInterface σ)

/-- Instructions without branches are visited one after another, and a trap ends the visits
early. -/
theorem listed_straightPath (is : List Instruction) (offset : Nat) (s : State σ) :
    (straightPath env i offset is s).Listed (Assembly.entries offset is) := by
  induction is generalizing offset s with
  | nil => exact Path.listed_nil _ _
  | cons instruction is ih =>
    have hone (outcome) : (⟨[⟨offset, instruction.canonical, s⟩], outcome⟩ : Path σ).Listed
        (Assembly.entries offset (instruction :: is)) :=
      List.singleton_sublist.mpr List.mem_cons_self
    rw [straightPath]
    rcases execute env i s instruction with trap | ⟨_ | d | _, t⟩
    · exact hone _
    · exact (ih (offset + instruction.length) t).cons_cons _
    · exact hone _
    · exact hone _

/-- A row of tests visits its own entries up to the test that succeeds. Both continuations are
listed by the same entries, so it does not matter which one is taken. -/
theorem listed_testsPath (distance : Nat) {slow fast : State σ → Path σ} {listing : List Entry}
    (hslow : ∀ t, (slow t).Listed listing) (hfast : ∀ t, (fast t).Listed listing)
    (tests : List (List Instruction × Condition)) (offset : Nat) (s : State σ) :
    (testsPath env i distance slow fast offset tests s).Listed
      (testEntries distance offset tests ++ listing) := by
  induction tests generalizing offset s with
  | nil => exact hfast s
  | cons test tests ih =>
    obtain ⟨is, condition⟩ := test
    rw [testEntries, List.append_assoc]
    refine (listed_straightPath env i is offset s).andThen fun t => ?_
    refine (Path.listed_branch _ _ _ _ t).andThen fun u => ?_
    split
    · exact (hslow u).append_left _
    · exact ih _ u

/-- The visits of structured code are **in the order of its entries**: some are left out, none is
made twice and none is made out of order. -/
theorem listed_path (c : Code) (offset : Nat) (s : State σ) :
    (c.path env i offset s).Listed (c.entries offset) := by
  induction c generalizing offset s with
  | straight is => exact listed_straightPath env i is offset s
  | seq first second ihf ihs => exact (ihf offset s).andThen fun t => ihs _ t
  | skip condition width body ih =>
    refine (Path.listed_branch _ _ _ _ s).andThen fun t => ?_
    split
    · exact Path.listed_nil _ _
    · exact ih _ t
  | choose tests fast slow ihf ihs =>
    rw [Code.entries, List.append_assoc]
    refine listed_testsPath env i _ (fun t => ?_) (fun t => ?_) tests offset s
    · rw [← List.singleton_append, ← List.append_assoc]
      exact Path.Listed.append_left (ihs _ t) _
    · -- the fast alternative goes over the slow one
      refine (ihf _ t).andThen fun u => ?_
      rw [← List.singleton_append]
      exact List.sublist_append_of_sublist_left (Path.listed_branch _ _ _ _ u)

end Listed

end Machine

end Dynarec
