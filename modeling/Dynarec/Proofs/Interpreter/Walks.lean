import Dynarec.Proofs.Guest.Extent
import Dynarec.Proofs.Guest.Tables
import Dynarec.Proofs.Interpreter.Clock

/-!
# Walks through guest code

A **walk** (`Walk`) carries out guest instructions one after another, wherever control goes, up to
one that leaves its block. Meanwhile the guest code stays as it is, which says of some guest
addresses that two windows **agree** there (`Window.AgreesOn`).

How a walk is cut into blocks makes no difference: a block that is entered on the way carries out
the next instructions of the walk, and unless it ends the walk, what is left of it is a walk again
(`runBlock_of_walk`).
-/

namespace Dynarec

open Bridge (MemoryInterface)
open Guest (Ending ExitReason Image Placed Window)

variable {σ : Type}

/-! ### Guest code -/

namespace Guest

variable {w v u : Window} {code : Address → Prop} {budget : Nat} {a : Address} {p : Placed}

/-- Whether two windows **agree** on some guest addresses. -/
def Window.AgreesOn (code : Address → Prop) (w v : Window) : Prop := ∀ a, code a → w.get a = v.get a

theorem Window.AgreesOn.trans (h : w.AgreesOn code v) (h' : v.AgreesOn code u) :
    w.AgreesOn code u := fun a ha => (h a ha).trans (h' a ha)

/-- Whether a **block can be read** at a guest address, of at most `budget` instructions after the
first one, whose bytes are part of some code. -/
def Window.HasBlock (w : Window) (budget : Nat) (code : Address → Prop) (a : Address) : Prop :=
  ∃ ending, (w.image.scan budget a.toNat).outcome = .ok ending ∧
    ∀ b, a.toNat ≤ b.toNat → b.toNat < ending.cursor → code b

/-- A block in code that agrees is **read alike**, since all the bytes that are looked at are
code. -/
theorem Window.HasBlock.scan_eq (h : w.HasBlock budget code a) (hagrees : v.AgreesOn code w) :
    v.image.scan budget a.toNat = w.image.scan budget a.toNat := by
  obtain ⟨ending, houtcome, hcode⟩ := h
  have hend : ending.cursor ≤ 0x10000 := (Image.reads_of_scan houtcome).cursor_lt.2
  refine Image.scan_congr rfl houtcome fun k hk hlt => hagrees _ (hcode _ ?_ ?_)
  · rwa [BitVec.toNat_ofNat, Nat.mod_eq_of_lt (by omega)]
  · rwa [BitVec.toNat_ofNat, Nat.mod_eq_of_lt (by omega)]

/-- Whether an instruction **stands** in a window, at the start of a block that can be read. -/
structure Placed.Stands (p : Placed) (w : Window) (budget : Nat) (code : Address → Prop) :
    Prop where
  entry : w.image.entry p.address.toNat = .ok p.instruction
  block : w.HasBlock budget code p.address

/-- An instruction that stands is **fetched** from every window that agrees on the code. -/
theorem Placed.Stands.fetch (h : p.Stands w budget code) (hagrees : v.AgreesOn code w) :
    v.image.fetch p.address.toNat = .ok (p.instruction, p.stop) := by
  obtain ⟨ending, houtcome, hcode⟩ := h.block
  have hreads := Image.reads_of_scan houtcome
  have hend : ending.cursor ≤ 0x10000 := hreads.cursor_lt.2
  have hfetch : w.image.fetch p.address.toNat = .ok (p.instruction, p.stop) := by
    rw [Image.fetch_eq_entry, h.entry]
    rfl
  -- the instruction is the first one of the block
  have hstop : p.stop ≤ ending.cursor := by
    generalize (w.image.scan budget p.address.toNat).listing = listing at hreads
    cases hreads with
    | ends hfirst | fallsThrough hfirst =>
      cases hfetch.symm.trans hfirst
      exact Nat.le_refl _
    | more hfirst _ _ _ hrest =>
      cases hfetch.symm.trans hfirst
      exact Nat.le_of_lt hrest.cursor_lt.1
  have hsize : v.image.size = w.image.size := rfl
  refine Image.fetch_congr hsize hfetch fun k hk hlt => hagrees _ (hcode _ ?_ ?_)
  · rwa [BitVec.toNat_ofNat, Nat.mod_eq_of_lt (by omega)]
  · rw [BitVec.toNat_ofNat, Nat.mod_eq_of_lt (by omega)]
    omega

/-- What is **fetched** where an instruction stands is that instruction, as there is one only. -/
theorem Placed.Stands.eq_of_fetch (h : p.Stands w budget code) (hagrees : v.AgreesOn code w)
    {instruction : Instruction} {next : Nat}
    (hfetch : v.image.fetch p.address.toNat = .ok (instruction, next)) :
    instruction = p.instruction ∧ next = p.stop := by
  cases (h.fetch hagrees).symm.trans hfetch
  exact ⟨rfl, rfl⟩

theorem Placed.mk_ofNat_toNat (p : Placed) :
    Placed.mk (BitVec.ofNat 16 p.address.toNat) p.instruction = p := by
  rw [BitVec.ofNat_toNat, BitVec.setWidth_eq]

theorem Placed.next_eq_ofNat (p : Placed) : p.next = BitVec.ofNat 16 p.stop := by
  rw [next, stop, BitVec.ofNat_add, BitVec.ofNat_toNat, BitVec.setWidth_eq]

theorem Placed.toNat_next (p : Placed) (h : p.stop < 0x10000) : p.next.toNat = p.stop := by
  rw [next_eq_ofNat, BitVec.toNat_ofNat]
  exact Nat.mod_eq_of_lt h

/-- Whether an instruction that can be compiled **lies in** the code of a window. -/
structure Placed.LiesIn (p : Placed) (w : Window) (code : Address → Prop) : Prop where
  entry : w.image.entry p.address.toNat = .ok p.instruction
  handled : p.instruction.operation.isHandled = true
  covered : ∀ a, p.Covers a → code a

section LiesIn

variable (h : p.LiesIn w code)

include h

theorem Placed.LiesIn.fetch : w.image.fetch p.address.toNat = .ok (p.instruction, p.stop) := by
  rw [Image.fetch_eq_entry, h.entry]
  rfl

/-- A block that starts with its **last instruction**, whatever number of them is allowed. -/
theorem Placed.LiesIn.hasBlock (hends : p.instruction.operation.endsBlock = true) (budget : Nat) :
    w.HasBlock budget code p.address := by
  refine ⟨⟨p.stop, false⟩, ?_, fun b hlow hhigh => h.covered b ⟨hlow, hhigh⟩⟩
  rw [Image.scan_ends h.fetch h.handled hends]

/-- A block that **goes on** behind its first instruction. -/
theorem Placed.LiesIn.hasBlock_of_next (hends : p.instruction.operation.endsBlock = false)
    (hnext : ∀ budget, w.HasBlock budget code p.next) (budget : Nat) :
    w.HasBlock budget code p.address := by
  have hfirst (b : Address) (hlow : p.address.toNat ≤ b.toNat) (hhigh : b.toNat < p.stop) :
      code b :=
    h.covered b ⟨hlow, hhigh⟩
  cases budget with
  | zero =>
    refine ⟨⟨p.stop, true⟩, ?_, hfirst⟩
    rw [Image.scan_zero h.fetch h.handled hends]
  | succ budget =>
    have hscan := Image.scan_succ h.fetch h.handled hends budget
    by_cases hlast : w.image.size ≤ p.stop
    · rw [if_pos hlast] at hscan
      exact ⟨⟨p.stop, true⟩, by rw [hscan], hfirst⟩
    · rw [if_neg hlast] at hscan
      obtain ⟨ending, houtcome, hrest⟩ := hnext budget
      rw [p.toNat_next (Nat.lt_of_not_le hlast)] at houtcome hrest
      refine ⟨ending, by rw [hscan]; exact houtcome, fun b hlow hhigh => ?_⟩
      by_cases hb : b.toNat < p.stop
      · exact hfirst b hlow hb
      · exact hrest b (Nat.le_of_not_lt hb) hhigh

end LiesIn

end Guest

namespace Interpreter

/-! ### Walks -/

/-- A **walk** through the code of a window, from an address and a state: the instructions that it
carries out, each with the state in which it starts, and what the last one leads to. At the limit
given by `budget` a block can be read at every instruction. -/
inductive Walk (i : MemoryInterface σ) (budget : Nat) (w : Window) (code : Address → Prop) :
    Address → State σ → List (Placed × State σ) → State σ × ExitReason × Address → Prop
  /-- The last instruction leaves its block. -/
  | last {p : Placed} {s t : State σ} {exit : ExitReason × Address} :
      p.Stands w budget code → step i p s = (t, some exit) →
        Walk i budget w code p.address s [(p, s)] (t, exit)
  /-- Control goes on, be it behind the instruction or elsewhere, and the code is still there. -/
  | more {p : Placed} {s t : State σ} {exit : Exit} {c : Address}
      {executed : List (Placed × State σ)} {out : State σ × ExitReason × Address} :
      p.Stands w budget code → step i p s = (t, exit) →
        exit.getD (.branch, p.next) = (.branch, c) → t.memory.window.AgreesOn code w →
        Walk i budget w code c t executed out →
        Walk i budget w code p.address s ((p, s) :: executed) out

variable {i : MemoryInterface σ} {budget : Nat} {w v : Window} {code : Address → Prop} {a : Address}
  {s : State σ} {executed : List (Placed × State σ)} {out : State σ × ExitReason × Address}

/-- What an instruction that **leaves its block** makes of a walk: its end, or a walk from
elsewhere. -/
def Leaves (i : MemoryInterface σ) (budget : Nat) (w : Window) (code : Address → Prop) (p : Placed)
    (s t : State σ) (e : ExitReason × Address) (executed : List (Placed × State σ))
    (out : State σ × ExitReason × Address) : Prop :=
  (executed = [(p, s)] ∧ out = (t, e)) ∨
    ∃ c rest, e = (.branch, c) ∧ executed = (p, s) :: rest ∧
      t.memory.window.AgreesOn code w ∧ Walk i budget w code c t rest out

/-- The **first instruction** of a walk leaves its block, or the walk goes on behind it. -/
theorem Walk.first (h : Walk i budget w code a s executed out) :
    ∃ p t, p.address = a ∧ p.Stands w budget code ∧
      ((∃ e, step i p s = (t, some e) ∧ Leaves i budget w code p s t e executed out) ∨
        ∃ rest, step i p s = (t, none) ∧ executed = (p, s) :: rest ∧
          t.memory.window.AgreesOn code w ∧ Walk i budget w code p.next t rest out) := by
  cases h with
  | @last p s t exit hstands hstep =>
    exact ⟨p, t, rfl, hstands, .inl ⟨exit, hstep, .inl ⟨rfl, rfl⟩⟩⟩
  | @more p s t exit c rest out hstands hstep hexit hagrees hrest =>
    refine ⟨p, t, rfl, hstands, ?_⟩
    cases exit with
    | none =>
      cases hexit
      exact .inr ⟨rest, hstep, rfl, hagrees, hrest⟩
    | some e => exact .inl ⟨e, hstep, .inr ⟨c, rest, hexit, rfl, hagrees, hrest⟩⟩

/-- A walk starts with a block of the code. -/
theorem Walk.hasBlock (h : Walk i budget w code a s executed out) : w.HasBlock budget code a := by
  obtain ⟨p, _, rfl, hstands, -⟩ := h.first
  exact hstands.block

/-- What a block **takes off** a walk: all that is left of it, or the first instructions, after
which the rest is a walk from where the block is left. -/
def Takes (i : MemoryInterface σ) (budget : Nat) (w : Window) (code : Address → Prop)
    (taken : List (Placed × State σ)) (left : State σ × ExitReason × Address)
    (executed : List (Placed × State σ)) (out : State σ × ExitReason × Address) : Prop :=
  (taken = executed ∧ left = out) ∨
    ∃ t c rest, left = (t, .branch, c) ∧ executed = taken ++ rest ∧
      t.memory.window.AgreesOn code w ∧ Walk i budget w code c t rest out

/-- What is taken off a walk, with one more instruction in front of both. -/
theorem Takes.cons {p : Placed} {taken : List (Placed × State σ)}
    {left : State σ × ExitReason × Address} (h : Takes i budget w code taken left executed out) :
    Takes i budget w code ((p, s) :: taken) left ((p, s) :: executed) out := by
  rcases h with ⟨rfl, rfl⟩ | ⟨t, c, rest, hleft, rfl, hagrees, hrest⟩
  · exact .inl ⟨rfl, rfl⟩
  · exact .inr ⟨t, c, rest, hleft, rfl, hagrees, hrest⟩

section First

variable {p : Placed} {ps : List Placed} {t : State σ}

/-- The first instruction **leaves** the block, and the walk goes on where it leads. -/
theorem takes_left {e : ExitReason × Address} (hstep : step i p s = (t, some e))
    (h : Leaves i budget w code p s t e executed out) (fallThrough : Address) :
    Takes i budget w code (execution i (p :: ps) s) (runBlock i fallThrough (p :: ps) s)
      executed out := by
  rw [execution_left hstep, runBlock_left hstep]
  rcases h with ⟨rfl, rfl⟩ | ⟨c, rest, rfl, rfl, hagrees, hrest⟩
  · exact .inl ⟨rfl, rfl⟩
  · exact .inr ⟨t, c, rest, rfl, rfl, hagrees, hrest⟩

/-- Control **falls through** the first instruction, which is the last one of the block. -/
theorem takes_through (hstep : step i p s = (t, none)) (hagrees : t.memory.window.AgreesOn code w)
    {rest : List (Placed × State σ)} (hrest : Walk i budget w code p.next t rest out) :
    Takes i budget w code (execution i [p] s) (runBlock i p.next [p] s) ((p, s) :: rest) out := by
  rw [execution_through hstep, runBlock_through hstep]
  exact .inr ⟨t, p.next, rest, rfl, rfl, hagrees, hrest⟩

/-- The first instruction leads to the **next one** of the block, which takes the rest of it off the
walk. -/
theorem takes_more (hstep : step i p s = (t, none)) {fallThrough : Address}
    (h : Takes i budget w code (execution i ps t) (runBlock i fallThrough ps t) executed out) :
    Takes i budget w code (execution i (p :: ps) s) (runBlock i fallThrough (p :: ps) s)
      ((p, s) :: executed) out := by
  rw [execution_through hstep, runBlock_through hstep]
  exact h.cons

end First

/-- Control never falls through an instruction that **ends** the block. -/
theorem step_ne_through {p : Placed} (h : p.instruction.operation.endsBlock = true)
    (s t : State σ) : step i p s ≠ (t, none) := by
  intro hstep
  have hexit := perform_of_endsBlock (i := i) h p.next (s.addCycles p.instruction.cycles.base)
  rw [← step, hstep] at hexit
  cases hexit

/-- **A block on a walk** carries out what comes next on it, however many instructions it holds. The
induction is on what was read of it, along with the walk. -/
theorem runBlock_of_walk (hagrees : v.AgreesOn code w) {cursor : Nat} {listing : List Placed}
    {ending : Ending} (hreads : v.image.Reads cursor listing ending) (ha : a.toNat = cursor)
    (h : Walk i budget w code a s executed out) :
    Takes i budget w code (execution i listing s)
      (runBlock i (BitVec.ofNat 16 ending.cursor) listing s) executed out := by
  -- what was read last ends the block, is the last one allowed, or goes on
  induction hreads generalizing a s executed with
  | ends hfetch _ hends =>
    subst ha
    obtain ⟨p, t, rfl, hstands, ⟨e, hstep, hleaves⟩ | ⟨rest, hstep, -⟩⟩ := h.first
    · obtain ⟨rfl, -⟩ := hstands.eq_of_fetch hagrees hfetch
      rw [p.mk_ofNat_toNat]
      exact takes_left hstep hleaves _
    · obtain ⟨rfl, -⟩ := hstands.eq_of_fetch hagrees hfetch
      exact absurd hstep (step_ne_through hends s t)
  | fallsThrough hfetch =>
    subst ha
    obtain ⟨p, t, rfl, hstands, hcases⟩ := h.first
    obtain ⟨rfl, rfl⟩ := hstands.eq_of_fetch hagrees hfetch
    rw [p.mk_ofNat_toNat, ← p.next_eq_ofNat]
    rcases hcases with ⟨e, hstep, hleaves⟩ | ⟨rest, hstep, rfl, htagrees, hrest⟩
    · exact takes_left hstep hleaves _
    · exact takes_through hstep htagrees hrest
  | more hfetch _ _ hlt _ ih =>
    subst ha
    obtain ⟨p, t, rfl, hstands, hcases⟩ := h.first
    obtain ⟨rfl, rfl⟩ := hstands.eq_of_fetch hagrees hfetch
    rw [p.mk_ofNat_toNat]
    rcases hcases with ⟨e, hstep, hleaves⟩ | ⟨rest, hstep, rfl, -, hrest⟩
    · exact takes_left hstep hleaves _
    · exact takes_more hstep (ih (p.toNat_next hlt) hrest)

end Interpreter

end Dynarec
