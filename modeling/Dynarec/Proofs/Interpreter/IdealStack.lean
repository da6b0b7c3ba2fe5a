import Dynarec.Proofs.Interpreter.StackUse
import Dynarec.Proofs.Interpreter.Walks

/-!
# The ideal stack

An **ideal stack** is a list of words, the one pushed last at its head. `StackWalk` is a walk of a
guest processor that pushes words to memory and to an ideal stack, and takes what it pops from the
ideal stack alone. With a flat interface memory **holds** the words of the ideal stack all the time
(`Holds`), so that such a walk is a walk of the guest processor (`StackWalk.walk`). What is popped
is what the matching instruction has pushed (`StackWalk.exists_match`).
-/

namespace Dynarec

open Bridge (MemoryInterface)
open Guest (ExitReason Placed Window)

variable {σ : Type}

/-! ### Words beside each other -/

/-- Storing a word changes no word that has **no byte in common** with it. -/
theorem Guest.Window.getWord_setWord_of_ne (w : Window) {a b : Address} (v : BitVec 16)
    (hsame : b ≠ a) (habove : b ≠ a + 1) (hbelow : b + 1 ≠ a) :
    (w.setWord a v).getWord b = w.getWord b := by
  have hnext : b + 1 ≠ a + 1 := by bv_omega
  rw [getWord, getWord, get_setWord_of_ne w v hbelow hnext, get_setWord_of_ne w v hsame habove]

namespace Interpreter

variable {i : MemoryInterface σ}

/-! ### Words in memory -/

/-- The guest addresses that a stack of some depth **occupies** below its base. -/
def Occupied (base : Address) (depth : Nat) (a : Address) : Prop :=
  0 < (base - a).toNat ∧ (base - a).toNat ≤ 2 * depth

/-- Whether a state **holds** the words of an ideal stack: SP lies below the base of the stack by
two bytes for each of them, and they are in memory from SP on, the head first. -/
structure Holds (base : Address) (s : State σ) (stack : List (BitVec 16)) : Prop where
  sp : s.sp = base - BitVec.ofNat 16 (2 * stack.length)
  words : ∀ (k : Nat) v, stack[k]? = some v →
    s.memory.window.getWord (s.sp + BitVec.ofNat 16 (2 * k)) = v

theorem sub_two_mul_succ (a : Address) (k : Nat) :
    a - BitVec.ofNat 16 (2 * k) - 2 = a - BitVec.ofNat 16 (2 * (k + 1)) := by
  have htwo : 2 * (k + 1) = 2 * k + 2 := by omega
  rw [htwo, BitVec.ofNat_add]
  generalize BitVec.ofNat 16 (2 * k) = x
  bv_omega

theorem sub_two_add_two_mul_succ (a : Address) (k : Nat) :
    a - 2 + BitVec.ofNat 16 (2 * (k + 1)) = a + BitVec.ofNat 16 (2 * k) := by
  have htwo : 2 * (k + 1) = 2 * k + 2 := by omega
  rw [htwo, BitVec.ofNat_add]
  generalize BitVec.ofNat 16 (2 * k) = x
  bv_omega

namespace Holds

variable {base : Address} {s t : State σ} {stack : List (BitVec 16)} {v : BitVec 16}

theorem nil (s : State σ) : Holds s.sp s [] where
  sp := (BitVec.sub_zero s.sp).symm
  words _ _ h := nomatch List.getElem?_nil.symm.trans h

/-- The word **at SP** is the head. -/
theorem head (h : Holds base s (v :: stack)) : s.memory.window.getWord s.sp = v := by
  have hword := h.words 0 v rfl
  rwa [Nat.mul_zero, BitVec.add_zero] at hword

/-- **Pushing** a word onto a stack that does not reach around guest memory. The words below stay as
they are, having no byte in common with the new one. -/
theorem push (h : Holds base s stack) (hfits : stack.length < 0x7FFF) (hsp : t.sp = s.sp - 2)
    (hwindow : t.memory.window = s.memory.window.setWord (s.sp - 2) v) :
    Holds base t (v :: stack) where
  sp := by rw [hsp, h.sp, List.length_cons, sub_two_mul_succ]
  words k u hk := by
    rw [hwindow, hsp]
    cases k with
    | zero =>
      obtain rfl : v = u := Option.some.inj hk
      rw [Nat.mul_zero, BitVec.add_zero, Window.getWord_setWord]
    | succ k =>
      -- the words below the new one have no byte in common with it
      have hold : stack[k]? = some u := hk
      have hlt : k < stack.length := (List.getElem?_eq_some_iff.mp hold).1
      have hsame : s.sp + BitVec.ofNat 16 (2 * k) ≠ s.sp - 2 := by bv_omega
      have habove : s.sp + BitVec.ofNat 16 (2 * k) ≠ s.sp - 2 + 1 := by bv_omega
      have hbelow : s.sp + BitVec.ofNat 16 (2 * k) + 1 ≠ s.sp - 2 := by bv_omega
      rw [sub_two_add_two_mul_succ, Window.getWord_setWord_of_ne _ v hsame habove hbelow]
      exact h.words k u hold

/-- **Popping** a word: the others are where they were, and the memory of the word is no longer
looked at. -/
theorem pop (h : Holds base s (v :: stack)) (hsp : t.sp = s.sp + 2)
    (hwindow : t.memory.window = s.memory.window) : Holds base t stack where
  sp := by
    have hbase := h.sp
    rw [List.length_cons, ← sub_two_mul_succ] at hbase
    rw [hsp, hbase]
    exact BitVec.sub_add_cancel _ _
  words k u hk := by
    have hword := h.words (k + 1) u hk
    rwa [← hwindow, ← BitVec.add_sub_cancel s.sp 2, ← hsp, sub_two_add_two_mul_succ] at hword

/-- The bytes of the words are **occupied**: they lie below the base, no deeper than the stack may
get. -/
theorem occupied (h : Holds base s stack) {depth : Nat} (hlength : stack.length ≤ depth)
    (hdepth : depth ≤ 0x7FFF) {k : Nat} (hk : k < stack.length) :
    Occupied base depth (s.sp + BitVec.ofNat 16 (2 * k)) ∧
      Occupied base depth (s.sp + BitVec.ofNat 16 (2 * k) + 1) := by
  have hsp := h.sp
  unfold Occupied
  constructor <;> bv_omega

/-- The bytes of **a new word** are occupied. -/
theorem occupied_push (h : Holds base s stack) {depth : Nat} (hlength : stack.length < depth)
    (hdepth : depth ≤ 0x7FFF) :
    Occupied base depth (s.sp - 2) ∧ Occupied base depth (s.sp - 2 + 1) := by
  have hsp := h.sp
  unfold Occupied
  constructor <;> bv_omega

/-- What neither moves SP nor touches the words: any instruction that does not use the stack and
leaves the occupied bytes alone. -/
theorem keep (h : Holds base s stack) {depth : Nat} (hlength : stack.length ≤ depth)
    (hdepth : depth ≤ 0x7FFF) (hsp : t.sp = s.sp)
    (hwindow : t.memory.window.AgreesOn (Occupied base depth) s.memory.window) :
    Holds base t stack where
  sp := hsp.trans h.sp
  words k u hk := by
    obtain ⟨hlow, hhigh⟩ := h.occupied hlength hdepth (List.getElem?_eq_some_iff.mp hk).1
    rw [hsp, ← h.words k u hk, Window.getWord, Window.getWord, hwindow _ hlow, hwindow _ hhigh]

end Holds

/-! ### Walks with an ideal stack -/

/-- **An instruction with an ideal stack**: what it leads to, and the stack then. What it pops is
the head of the stack. If it does not use the stack, it leaves SP and the memory alone that has to
be kept. -/
inductive IdealStep (i : MemoryInterface σ) (kept : Address → Prop) (p : Placed) (s : State σ) :
    List (BitVec 16) → State σ × Exit → List (BitVec 16) → Prop
  | push {v : BitVec 16} (stack : List (BitVec 16)) : stackUse i p s = .push v →
      IdealStep i kept p s stack (step i p s) (v :: stack)
  | pop {deliver : BitVec 16 → State σ × Exit} (v : BitVec 16) (stack : List (BitVec 16)) :
      stackUse i p s = .pop deliver → IdealStep i kept p s (v :: stack) (deliver v) stack
  | none (stack : List (BitVec 16)) : stackUse i p s = .none → (step i p s).1.sp = s.sp →
      (step i p s).1.memory.window.AgreesOn kept s.memory.window →
      IdealStep i kept p s stack (step i p s) stack

section Sound

variable {code : Address → Prop} {base : Address} {depth : Nat} (hflat : i.IsFlat)
  (hdepth : depth ≤ 0x7FFF) (hapart : ∀ a, Occupied base depth a → ¬ code a)

include hflat hdepth hapart

/-- With a flat interface **memory keeps up** with the ideal stack: what is popped is the head.
There is one case for each use of the stack. -/
theorem IdealStep.sound {p : Placed} {s : State σ} {stack stack' : List (BitVec 16)}
    {next : State σ × Exit}
    (h : IdealStep i (fun a => code a ∨ Occupied base depth a) p s stack next stack')
    (hholds : Holds base s stack) (hlength : stack.length ≤ depth)
    (hlength' : stack'.length ≤ depth) :
    step i p s = next ∧ Holds base next.1 stack' ∧
      next.1.memory.window.AgreesOn code s.memory.window := by
  cases h with
  | @push v _ huse =>
    obtain ⟨hsp, hwindow⟩ := step_of_push hflat huse
    rw [List.length_cons] at hlength'
    refine ⟨rfl, hholds.push (by omega) hsp hwindow, fun a ha => ?_⟩
    -- the code is no part of the stack
    obtain ⟨hlow, hhigh⟩ := hholds.occupied_push hlength' hdepth
    rw [hwindow]
    refine Window.get_setWord_of_ne _ v ?_ ?_
    · rintro rfl
      exact hapart _ hlow ha
    · rintro rfl
      exact hapart _ hhigh ha
  | pop v _ huse =>
    obtain ⟨hstep, hdeliver⟩ := step_of_pop hflat huse
    obtain ⟨hsp, hwindow⟩ := hdeliver v
    rw [hholds.head] at hstep
    refine ⟨hstep, hholds.pop hsp hwindow, fun a _ => ?_⟩
    rw [hwindow]
  | none _ huse hsp hkept =>
    refine ⟨rfl, hholds.keep hlength hdepth hsp ?_, fun a ha => hkept a (.inl ha)⟩
    exact fun a ha => hkept a (.inr ha)

end Sound

/-- An instruction on a walk with an ideal stack. -/
structure StackVisit (σ : Type) where
  placed : Placed
  state : State σ
  stack : List (BitVec 16)

/-- A **walk with an ideal stack** through the code of a window, from an address, a state and a
stack: the instructions that it carries out, what the last one leads to, and the stack then. The
stack never has more words than given by `depth`, and the bytes below its base are not written
otherwise. -/
inductive StackWalk (i : MemoryInterface σ) (budget : Nat) (w : Window) (code : Address → Prop)
    (base : Address) (depth : Nat) : Address → State σ → List (BitVec 16) → List (StackVisit σ) →
    State σ × ExitReason × Address → List (BitVec 16) → Prop
  | last {p : Placed} {s t : State σ} {exit : ExitReason × Address}
      {stack stack' : List (BitVec 16)} :
      p.Stands w budget code →
        IdealStep i (fun a => code a ∨ Occupied base depth a) p s stack (t, some exit) stack' →
        stack'.length ≤ depth →
        StackWalk i budget w code base depth p.address s stack [⟨p, s, stack⟩] (t, exit) stack'
  | more {p : Placed} {s t : State σ} {exit : Exit} {c : Address}
      {stack stack' stack'' : List (BitVec 16)} {visits : List (StackVisit σ)}
      {out : State σ × ExitReason × Address} :
      p.Stands w budget code →
        IdealStep i (fun a => code a ∨ Occupied base depth a) p s stack (t, exit) stack' →
        stack'.length ≤ depth → exit.getD (.branch, p.next) = (.branch, c) →
        StackWalk i budget w code base depth c t stack' visits out stack'' →
        StackWalk i budget w code base depth p.address s stack (⟨p, s, stack⟩ :: visits) out
          stack''

namespace StackWalk

variable {budget : Nat} {w : Window} {code : Address → Prop} {base : Address} {depth : Nat}
  {a : Address} {s : State σ} {stack stack' : List (BitVec 16)} {visits : List (StackVisit σ)}
  {out : State σ × ExitReason × Address}

/-- With a flat interface a walk with an ideal stack **is a walk**, and memory holds the words of
the stack all the time. The induction is on the walk, and each step is `IdealStep.sound`. -/
theorem walk (hflat : i.IsFlat) (hdepth : depth ≤ 0x7FFF)
    (hapart : ∀ a, Occupied base depth a → ¬ code a)
    (h : StackWalk i budget w code base depth a s stack visits out stack')
    (hholds : Holds base s stack) (hlength : stack.length ≤ depth)
    (hagrees : s.memory.window.AgreesOn code w) :
    Walk i budget w code a s (visits.map fun visit => (visit.placed, visit.state)) out ∧
      Holds base out.1 stack' ∧ ∀ visit ∈ visits, Holds base visit.state visit.stack := by
  induction h with
  | last hstands hstep hlength' =>
    obtain ⟨hreal, hholds', -⟩ := hstep.sound hflat hdepth hapart hholds hlength hlength'
    refine ⟨.last hstands hreal, hholds', fun visit hvisit => ?_⟩
    rwa [List.mem_singleton.mp hvisit]
  | more hstands hstep hlength' hexit hrest ih =>
    obtain ⟨hreal, hholds', hkept⟩ := hstep.sound hflat hdepth hapart hholds hlength hlength'
    obtain ⟨hwalk, hend, hvisits⟩ := ih hholds' hlength' (hkept.trans hagrees)
    refine ⟨.more hstands hreal hexit (hkept.trans hagrees) hwalk, hend, ?_⟩
    exact List.forall_mem_cons.mpr ⟨hholds, hvisits⟩

/-- What a step does to the words **below** the head: they stay, or the head was pushed on top of
them. -/
theorem suffix_of_step {kept : Address → Prop} {p : Placed} {next : State σ × Exit} {v : BitVec 16}
    {rest : List (BitVec 16)} (hstep : IdealStep i kept p s stack next stack')
    (h : v :: rest <:+ stack') :
    v :: rest <:+ stack ∨ stackUse i p s = .push v ∧ stack = rest := by
  cases hstep with
  | @push u _ huse =>
    rcases List.suffix_cons_iff.mp h with heq | hold
    · obtain ⟨rfl, rfl⟩ := List.cons.inj heq
      exact .inr ⟨huse, rfl⟩
    · exact .inl hold
  | pop u _ => exact .inl (h.trans (List.suffix_cons u _))
  | none => exact .inl h

/-- **Where a word comes from** that is on the ideal stack: it has been there from the start, or an
instruction has pushed it on top of what is below it, and it has been there since. -/
theorem exists_push (h : StackWalk i budget w code base depth a s stack visits out stack') {k : Nat}
    {visit : StackVisit σ} (hk : visits[k]? = some visit) {v : BitVec 16} {rest : List (BitVec 16)}
    (hsuffix : v :: rest <:+ visit.stack) :
    (v :: rest <:+ stack ∧ ∀ m u, m ≤ k → visits[m]? = some u → v :: rest <:+ u.stack) ∨
      ∃ j pusher, j < k ∧ visits[j]? = some pusher ∧ pusher.stack = rest ∧
        stackUse i pusher.placed pusher.state = .push v ∧
        ∀ m u, j < m → m ≤ k → visits[m]? = some u → v :: rest <:+ u.stack := by
  have start {u u' : StackVisit σ} {us : List (StackVisit σ)} (hk : (u :: us)[0]? = some u')
      (hsuffix : v :: rest <:+ u'.stack) : v :: rest <:+ u.stack ∧
        ∀ (m : Nat) u', m ≤ 0 → (u :: us)[m]? = some u' → v :: rest <:+ u'.stack := by
    obtain rfl : u = u' := Option.some.inj hk
    refine ⟨hsuffix, fun m u' hm hu => ?_⟩
    obtain rfl := Nat.le_zero.mp hm
    rwa [← Option.some.inj hu]
  induction h generalizing k with
  | last =>
    cases k with
    | zero => exact .inl (start hk hsuffix)
    | succ k => cases hk
  | @more p s t exit c stack _ _ _ _ _ hstep _ _ _ ih =>
    cases k with
    | zero => exact .inl (start hk hsuffix)
    | succ k =>
      rcases ih hk with ⟨hstart, hall⟩ | ⟨j, pusher, hlt, hj, hrest, hpush, hall⟩
      · rcases suffix_of_step hstep hstart with hold | ⟨huse, rfl⟩
        · -- the word has been there before the first instruction
          refine .inl ⟨hold, fun m u hm hu => ?_⟩
          cases m with
          | zero => rwa [← Option.some.inj hu]
          | succ m => exact hall m u (Nat.le_of_succ_le_succ hm) hu
        · -- the first instruction has pushed it
          refine .inr ⟨0, ⟨p, s, stack⟩, Nat.succ_pos k, rfl, rfl, huse, fun m u hm hm' hu => ?_⟩
          cases m with
          | zero => exact absurd hm (Nat.lt_irrefl 0)
          | succ m => exact hall m u (Nat.le_of_succ_le_succ hm') hu
      · refine .inr ⟨j + 1, pusher, Nat.succ_lt_succ hlt, hj, hrest, hpush, fun m u hm hm' hu => ?_⟩
        cases m with
        | zero => exact absurd hm (Nat.not_lt_zero _)
        | succ m => exact hall m u (Nat.lt_of_succ_lt_succ hm) (Nat.le_of_succ_le_succ hm') hu

/-- An instruction that pops finds **a word** on the ideal stack, for a walk does not pop an empty
one. -/
theorem exists_head (h : StackWalk i budget w code base depth a s stack visits out stack')
    {visit : StackVisit σ} (hvisit : visit ∈ visits) {deliver : BitVec 16 → State σ × Exit}
    (huse : stackUse i visit.placed visit.state = .pop deliver) :
    ∃ v rest, visit.stack = v :: rest := by
  have hstep {kept : Address → Prop} {p : Placed} {s : State σ} {next : State σ × Exit}
      {stack stack' : List (BitVec 16)} (hstep : IdealStep i kept p s stack next stack')
      (huse : stackUse i p s = .pop deliver) : ∃ v rest, stack = v :: rest := by
    cases hstep with
    | push _ hpush => cases huse.symm.trans hpush
    | pop v => exact ⟨v, _, rfl⟩
    | none _ hnone => cases huse.symm.trans hnone
  induction h with
  | last _ hlast =>
    obtain rfl := List.mem_singleton.mp hvisit
    exact hstep hlast huse
  | more _ hmore _ _ _ ih =>
    rcases List.mem_cons.mp hvisit with rfl | hvisit
    · exact hstep hmore huse
    · exact ih hvisit

end StackWalk

/-- Whether the visit at an index **matches** an earlier one: the head of its stack is the word that
the earlier one has pushed, and no instruction between them has popped it. -/
structure Matching (i : MemoryInterface σ) (visits : List (StackVisit σ)) (j k : Nat)
    (pusher popper : StackVisit σ) (v : BitVec 16) : Prop where
  lt : j < k
  pusher_mem : visits[j]? = some pusher
  popper_mem : visits[k]? = some popper
  pushes : stackUse i pusher.placed pusher.state = .push v
  stack : popper.stack = v :: pusher.stack
  between : ∀ m visit, j < m → m ≤ k → visits[m]? = some visit → popper.stack <:+ visit.stack

/-- **What is popped has been pushed** by the matching instruction: the last one before which the
stack was what it is after the pop. -/
theorem StackWalk.exists_match {budget : Nat} {w : Window} {code : Address → Prop} {base : Address}
    {depth : Nat} {a : Address} {s : State σ} {stack : List (BitVec 16)}
    {visits : List (StackVisit σ)} {out : State σ × ExitReason × Address}
    (h : StackWalk i budget w code base depth a s [] visits out stack) {k : Nat}
    {popper : StackVisit σ} (hk : visits[k]? = some popper) {deliver : BitVec 16 → State σ × Exit}
    (huse : stackUse i popper.placed popper.state = .pop deliver) :
    ∃ j pusher v, Matching i visits j k pusher popper v := by
  obtain ⟨v, rest, hstack⟩ := h.exists_head (List.mem_of_getElem? hk) huse
  have hsuffix : v :: rest <:+ popper.stack := ⟨[], hstack.symm⟩
  rcases h.exists_push hk hsuffix with ⟨hnil, -⟩ | ⟨j, pusher, hlt, hj, rfl, hpush, hall⟩
  · cases List.suffix_nil.mp hnil
  · exact ⟨j, pusher, v, hlt, hj, hk, hpush, hstack, hstack ▸ hall⟩

end Interpreter

end Dynarec
