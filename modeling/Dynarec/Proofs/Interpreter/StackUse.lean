import Dynarec.Proofs.Interpreter.Accesses
import Dynarec.Proofs.Interpreter.Steps

/-!
# What instructions do to the stack

With a flat interface a word is pushed and popped alike on both paths (`push_flat`, `pop_flat`).
`stackUse` says of an instruction whether it pushes a word, pops one or leaves the stack alone. What
is pushed is a pair, of F only Z and C, or the address after a call (`Pushes`); what is popped goes
to a pair, of which F keeps only Z and C, or it is where a return leads (`Delivers`).
-/

namespace Dynarec.Interpreter

open Bridge (MemoryInterface)
open Guest (ExitReason Operation Placed StackPair)

variable {σ : Type} {i : MemoryInterface σ}

/-! ### The stack in flat memory -/

/-- **Pushing** with a flat interface stores the word below SP, whichever path it takes. -/
theorem push_flat (hflat : i.IsFlat) (s : State σ) (v : BitVec 16) :
    (s.push i v).sp = s.sp - 2 ∧
      (s.push i v).memory.window = s.memory.window.setWord (s.sp - 2) v := by
  rw [State.push]
  split
  · exact ⟨rfl, rfl⟩
  · exact ⟨rfl, (hflat ⟨true, true⟩ (s.sp - 2) v s.cycles s.memory).2⟩

/-- **Popping** with a flat interface reads the word at SP, whichever path it takes. -/
theorem pop_flat (hflat : i.IsFlat) (s : State σ) :
    (s.pop i).1 = s.memory.window.getWord s.sp ∧ (s.pop i).2.sp = s.sp + 2 ∧
      (s.pop i).2.memory.window = s.memory.window := by
  rw [State.pop]
  split
  · exact ⟨rfl, rfl, rfl⟩
  · obtain ⟨hword, hwindow⟩ := hflat ⟨true, false⟩ s.sp 0 s.cycles s.memory
    exact ⟨hword, rfl, hwindow⟩

/-! ### What an instruction does to the stack -/

/-- What an instruction does to the **stack**: it pushes a word, or pops one of which it makes
something, or neither. -/
inductive StackUse (σ : Type)
  | push (v : BitVec 16)
  | pop (deliver : BitVec 16 → State σ × Exit)
  | none

/-- What an instruction does to the stack in a state. -/
def stackUse (i : MemoryInterface σ) (p : Placed) (s : State σ) : StackUse σ :=
  let charged := s.addCycles p.instruction.cycles.base
  match p.instruction.operation with
  | .push pair => .push (s.getPair pair)
  | .pop pair => .pop fun v => ((charged.pop i).2.setPair pair v, none)
  | .restart _ => .push p.next
  | .call condition _ => if taken s condition then .push p.next else .none
  | .ret condition =>
    if taken s condition then
      .pop fun v =>
        (((charged.addCycles p.instruction.cycles.branchTaken).pop i).2, some (.branch, v))
    else .none
  | _ => .none

section Cases

variable {p : Placed} {s : State σ}

/-- The instructions that **push**: `PUSH` a pair, and calls and restarts the address after them. -/
theorem stackUse_push {v : BitVec 16} (h : stackUse i p s = .push v) :
    (∃ r, p.instruction.operation = .push r ∧ v = s.getPair r) ∨
      v = p.next ∧ ((∃ vector, p.instruction.operation = .restart vector) ∨
        ∃ condition a, p.instruction.operation = .call condition a ∧ taken s condition = true) := by
  rw [stackUse] at h
  cases hoperation : p.instruction.operation with
  | push r =>
    rw [hoperation] at h
    cases h
    exact .inl ⟨r, rfl, rfl⟩
  | restart vector =>
    rw [hoperation] at h
    cases h
    exact .inr ⟨rfl, .inl ⟨vector, rfl⟩⟩
  | call condition a =>
    simp only [hoperation] at h
    split at h
    · next htaken =>
      cases h
      exact .inr ⟨rfl, .inr ⟨condition, a, rfl, htaken⟩⟩
    · cases h
  | ret condition =>
    simp only [hoperation] at h
    split at h <;> cases h
  | _ =>
    rw [hoperation] at h
    cases h

/-- The instructions that **pop**: `POP` to a pair, and returns to the program counter. -/
theorem stackUse_pop {deliver : BitVec 16 → State σ × Exit} (h : stackUse i p s = .pop deliver) :
    let charged := s.addCycles p.instruction.cycles.base
    (∃ r, p.instruction.operation = .pop r ∧
        deliver = fun v => ((charged.pop i).2.setPair r v, none)) ∨
      ∃ condition, p.instruction.operation = .ret condition ∧ taken s condition = true ∧
        deliver = fun v =>
          (((charged.addCycles p.instruction.cycles.branchTaken).pop i).2, some (.branch, v)) := by
  rw [stackUse] at h
  cases hoperation : p.instruction.operation with
  | pop r =>
    rw [hoperation] at h
    cases h
    exact .inl ⟨r, rfl, rfl⟩
  | ret condition =>
    simp only [hoperation] at h
    split at h
    · next htaken =>
      cases h
      exact .inr ⟨condition, rfl, htaken, rfl⟩
    · cases h
  | call condition a =>
    simp only [hoperation] at h
    split at h <;> cases h
  | _ =>
    rw [hoperation] at h
    cases h

/-- An instruction that **pushes** stores the word below SP, and moves SP there. -/
theorem step_of_push (hflat : i.IsFlat) {v : BitVec 16} (h : stackUse i p s = .push v) :
    (step i p s).1.sp = s.sp - 2 ∧
      (step i p s).1.memory.window = s.memory.window.setWord (s.sp - 2) v := by
  let charged := s.addCycles p.instruction.cycles.base
  rcases stackUse_push h with ⟨r, hoperation, rfl⟩ | ⟨rfl, ⟨vector, hoperation⟩ |
    ⟨condition, a, hoperation, htaken⟩⟩
  · have hpair : s.getPair r = charged.getPair r := by cases r <;> rfl
    rw [step, hoperation, hpair]
    exact push_flat hflat charged _
  · rw [step, hoperation]
    exact push_flat hflat charged p.next
  · have htaken' : taken charged condition = true := htaken
    rw [step, hoperation, perform, if_pos htaken']
    exact push_flat hflat _ p.next

/-- An instruction that **pops** makes of the word at SP what it makes of any word, and leaves
memory as it is. -/
theorem step_of_pop (hflat : i.IsFlat) {deliver : BitVec 16 → State σ × Exit}
    (h : stackUse i p s = .pop deliver) :
    step i p s = deliver (s.memory.window.getWord s.sp) ∧
      ∀ v, (deliver v).1.sp = s.sp + 2 ∧ (deliver v).1.memory.window = s.memory.window := by
  let charged := s.addCycles p.instruction.cycles.base
  rcases stackUse_pop h with ⟨r, hoperation, rfl⟩ | ⟨condition, hoperation, htaken, rfl⟩
  · obtain ⟨hword, hsp, hwindow⟩ := pop_flat hflat charged
    constructor
    · rw [step, hoperation]
      exact congrArg (fun v => ((charged.pop i).2.setPair r v, none)) hword
    · intro v
      cases r <;> exact ⟨hsp, hwindow⟩
  · let counted := charged.addCycles p.instruction.cycles.branchTaken
    obtain ⟨hword, hsp, hwindow⟩ := pop_flat hflat counted
    constructor
    · have hstep : step i p s = ((counted.pop i).2, some (.branch, (counted.pop i).1)) := by
        have htaken' : taken charged condition = true := htaken
        rw [step, hoperation, perform, if_pos htaken', ← hoperation]
        rfl
      rw [hstep, hword]
      rfl
    · exact fun v => ⟨hsp, hwindow⟩

end Cases

/-! ### Pairs -/

/-- The bits of a word that a stack pair **keeps**: of F only Z and C. -/
def keptBits : StackPair → BitVec 16
  | .af => 0xFF#8 ++ 0x90#8
  | _ => 0xFFFF

theorem f_and_keptBits (s : State σ) : s.f &&& 0x90#8 = s.f := by
  rw [State.f]
  cases s.zero <;> cases s.carry <;> rfl

theorem getLsbD_f (s : State σ) : s.f.getLsbD 7 = s.zero ∧ s.f.getLsbD 4 = s.carry := by
  rw [State.f]
  cases s.zero <;> cases s.carry <;> exact ⟨rfl, rfl⟩

/-- What is **pushed** has no other bits than the pair keeps: of F these are the bits of Z and C. -/
theorem getPair_and_keptBits (s : State σ) (r : StackPair) :
    s.getPair r &&& keptBits r = s.getPair r := by
  cases r with
  | af =>
    have hones : 0xFF#8 = BitVec.allOnes 8 := rfl
    rw [keptBits, State.getPair, BitVec.and_append, f_and_keptBits, hones, BitVec.and_allOnes]
  | _ => exact BitVec.and_allOnes

theorem and_0x90 (v : Byte) :
    v &&& 0x90#8 = BitVec.ofNat 8 (128 * (v.getLsbD 7).toNat + 16 * (v.getLsbD 4).toNat) := by
  revert v
  decide +kernel

/-- What is **popped** are the bits that the pair keeps, all of them except for AF. -/
theorem getPair_setPair (s : State σ) (r : StackPair) (v : BitVec 16) :
    (s.setPair r v).getPair r = v &&& keptBits r := by
  cases r with
  | af =>
    have hbytes : v.extractLsb' 8 8 ++ v.extractLsb' 0 8 = v :=
      (BitVec.extractLsb'_append_extractLsb'_eq_extractLsb' rfl).trans BitVec.extractLsb'_eq_self
    have hf : (s.setPair .af v).f = v.extractLsb' 0 8 &&& 0x90#8 := by
      rw [and_0x90, BitVec.getLsbD_extractLsb', BitVec.getLsbD_extractLsb']
      rfl
    calc (s.setPair .af v).getPair .af
        = v.extractLsb' 8 8 ++ (v.extractLsb' 0 8 &&& 0x90#8) := by rw [← hf]; rfl
      _ = (v.extractLsb' 8 8 ++ v.extractLsb' 0 8) &&& (BitVec.allOnes 8 ++ 0x90#8) := by
        rw [BitVec.and_append, BitVec.and_allOnes]
      _ = v &&& keptBits .af := by rw [hbytes]; rfl
  | _ => exact BitVec.and_allOnes.symm

/-- What **is pushed**: a pair, of F only Z and C, or the address after a call. -/
structure Pushes (p : Placed) (s : State σ) (v : BitVec 16) : Prop where
  pair : ∀ r, p.instruction.operation = .push r → v = s.getPair r ∧ v &&& keptBits r = v
  flags : p.instruction.operation = .push .af → v.getLsbD 7 = s.zero ∧ v.getLsbD 4 = s.carry
  address : (∀ r, p.instruction.operation ≠ .push r) → v = p.next

/-- An instruction that pushes a word pushes the one that it should: the pair's, with Z and C at
their places in F, or the address after it. -/
theorem pushes_of_stackUse {p : Placed} {s : State σ} {v : BitVec 16}
    (h : stackUse i p s = .push v) : Pushes p s v := by
  rcases stackUse_push h with ⟨r, hoperation, rfl⟩ | ⟨rfl, hcall⟩
  · constructor
    · intro r' hr
      obtain rfl := Operation.push.inj (hoperation.symm.trans hr)
      exact ⟨rfl, getPair_and_keptBits s r⟩
    · intro hr
      obtain rfl := Operation.push.inj (hoperation.symm.trans hr)
      rw [State.getPair, BitVec.getLsbD_append, BitVec.getLsbD_append]
      exact getLsbD_f s
    · exact fun hr => absurd hoperation (hr r)
  · have hpair : ∀ r, p.instruction.operation ≠ .push r := by
      intro r hr
      rw [hr] at hcall
      rcases hcall with ⟨_, hne⟩ | ⟨_, _, hne, -⟩ <;> cases hne
    exact ⟨fun r hr => absurd hr (hpair r), fun hr => absurd hr (hpair .af), fun _ => rfl⟩

/-- What a word that is **popped** goes to: a pair, of which F keeps only Z and C, or the exit of a
return. -/
structure Delivers (i : MemoryInterface σ) (p : Placed) (s : State σ) (v : BitVec 16) : Prop where
  pair : ∀ r, p.instruction.operation = .pop r →
    (step i p s).2 = none ∧ (step i p s).1.getPair r = v &&& keptBits r
  flags : p.instruction.operation = .pop .af →
    (step i p s).1.zero = v.getLsbD 7 ∧ (step i p s).1.carry = v.getLsbD 4
  address : (∀ r, p.instruction.operation ≠ .pop r) → (step i p s).2 = some (.branch, v)

theorem delivers_of_stackUse {p : Placed} {s : State σ} {deliver : BitVec 16 → State σ × Exit}
    {v : BitVec 16} (h : stackUse i p s = .pop deliver) (hstep : step i p s = deliver v) :
    Delivers i p s v := by
  rcases stackUse_pop h with ⟨r, hoperation, rfl⟩ | ⟨condition, hoperation, -, rfl⟩
  · constructor
    · intro r' hr
      obtain rfl := Operation.pop.inj (hoperation.symm.trans hr)
      rw [hstep]
      exact ⟨rfl, getPair_setPair _ r v⟩
    · intro hr
      obtain rfl := Operation.pop.inj (hoperation.symm.trans hr)
      rw [hstep]
      exact ⟨rfl, rfl⟩
    · exact fun hr => absurd hoperation (hr r)
  · have hpair : ∀ r, p.instruction.operation ≠ .pop r := by
      intro r hr
      cases hr.symm.trans hoperation
    refine ⟨fun r hr => absurd hr (hpair r), fun hr => absurd hr (hpair .af), fun _ => ?_⟩
    rw [hstep]

end Dynarec.Interpreter
