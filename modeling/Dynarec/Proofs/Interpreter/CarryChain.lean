import Mathlib.Algebra.Group.Nat.Defs
import Dynarec.Interpreter.Step

/-!
# The carry chain

Numbers of several bytes are added and subtracted byte by byte, each **round** taking the carry of
the one before. What a round reads and writes is its `Chain`: A, DE, HL, the carry and the window.
`n` rounds add two numbers of `n` bytes with a carry, or subtract them with a borrow
(`Chain.Fits.chained`).
-/

namespace Dynarec

open Guest (AluOp Operation Window)

/-! ### Numbers in memory -/

namespace Guest.Window

/-- The **number** whose `n` bytes lie at a guest address, the lowest byte first. -/
def number (w : Window) : (a : Address) → (n : Nat) → Nat
  | _, 0 => 0
  | a, n + 1 => (w.get a).toNat + 256 * w.number (a + 1) n

theorem number_lt (w : Window) (a : Address) (n : Nat) : w.number a n < 256 ^ n := by
  induction n generalizing a with
  | zero => exact Nat.one_pos
  | succ n ih =>
    have hbyte := (w.get a).isLt
    have hrest := ih (a + 1)
    rw [number, Nat.pow_succ]
    omega

/-- A number depends on **its bytes** only. It must not reach around guest memory. -/
theorem number_congr {w v : Window} {a : Address} {n : Nat} (hfits : a.toNat + n ≤ 0x10000)
    (h : ∀ b : Address, a.toNat ≤ b.toNat → b.toNat < a.toNat + n → w.get b = v.get b) :
    w.number a n = v.number a n := by
  induction n generalizing a with
  | zero => rfl
  | succ n ih =>
    rw [number, number, h a (Nat.le_refl _) (by omega)]
    cases n with
    | zero => rfl
    | succ n =>
      have hnext : (a + 1).toNat = a.toNat + 1 := by bv_omega
      rw [ih (by omega) fun b hlow hhigh => h b (by omega) (by omega)]

end Guest.Window

namespace Interpreter

/-! ### Sums and differences -/

/-- Whether `v` and the carry `c'` are the sum of `x`, `y` and `c`, or the difference of `y` and `x`
and `c`, of digits below `m`. -/
def Chained (op : AluOp) (m x y c v c' : Nat) : Prop :=
  match op with
  | .adc => v + m * c' = x + y + c
  | .sbc => v + x + c = y + m * c'
  | _ => False

/-- **One byte** with its carry, as a sum or a difference of numbers without remainder. -/
theorem chained_alu {op : AluOp} (hop : op = .adc ∨ op = .sbc) (a b : Byte) (carry : Bool) :
    Chained op 256 b.toNat a.toNat carry.toNat (alu op a b carry).value.toNat
      (alu op a b carry).carry.toNat := by
  have ha := a.isLt
  have hb := b.isLt
  have hc := carry.toNat_le
  rcases hop with rfl | rfl
  · simp only [Chained, alu, Flagged.sum, Flagged.ofByte, BitVec.toNat_ofNat]
    by_cases hover : 256 ≤ a.toNat + b.toNat + carry.toNat
    · rw [decide_eq_true hover, Bool.toNat_true]
      omega
    · rw [decide_eq_false hover, Bool.toNat_false]
      omega
  · simp only [Chained, alu, Flagged.difference, Flagged.ofByte, BitVec.toNat_ofInt]
    by_cases hunder : a.toNat < b.toNat + carry.toNat
    · rw [decide_eq_true hunder, Bool.toNat_true]
      omega
    · rw [decide_eq_false hunder, Bool.toNat_false]
      omega

/-- The **lowest digit** in front of the others: its carry goes into them, and theirs comes out. -/
theorem Chained.cons {op : AluOp} {m x y c v c' x' y' v' c'' : Nat} (h : Chained op 256 x y c v c')
    (h' : Chained op m x' y' c' v' c'') :
    Chained op (m * 256) (x + 256 * x') (y + 256 * y') c (v + 256 * v') c'' := by
  have hdigit : m * 256 * c'' = 256 * (m * c'') := by
    rw [Nat.mul_comm m 256, Nat.mul_assoc]
  cases op with
  | adc =>
    simp only [Chained] at h h' ⊢
    omega
  | sbc =>
    simp only [Chained] at h h' ⊢
    omega
  | _ => exact h

/-- A sum **modulo** `m`, and its carry, which is the quotient. -/
theorem Chained.adc {m x y c v c' : Nat} (h : Chained .adc m x y c v c') (hv : v < m) :
    v = (x + y + c) % m ∧ c' = (x + y + c) / m := by
  rw [← (h : v + m * c' = x + y + c)]
  constructor
  · rw [Nat.add_mul_mod_self_left, Nat.mod_eq_of_lt hv]
  · rw [Nat.add_mul_div_left _ _ (by omega), Nat.div_eq_of_lt hv, Nat.zero_add]

/-- A difference **modulo** `m`, and its borrow, which is whether the subtrahend is larger. -/
theorem Chained.sbc {m x y c v : Nat} {borrow : Bool} (h : Chained .sbc m x y c v borrow.toNat)
    (hv : v < m) : (v : Int) = ((y : Int) - x - c) % m ∧ (borrow = true ↔ y < x + c) := by
  have h' : v + x + c = y + m * borrow.toNat := h
  cases borrow with
  | false =>
    rw [Bool.toNat_false, Nat.mul_zero, Nat.add_zero] at h'
    have hdifference : (y : Int) - x - c = v := by omega
    refine ⟨?_, by simp only [Bool.false_eq_true, false_iff]; omega⟩
    rw [hdifference, Int.emod_eq_of_lt (by omega) (by omega)]
  | true =>
    rw [Bool.toNat_true, Nat.mul_one] at h'
    have hdifference : (y : Int) - x - c = v - m := by omega
    refine ⟨?_, by simp only [true_iff]; omega⟩
    rw [hdifference, Int.sub_emod_right, Int.emod_eq_of_lt (by omega) (by omega)]

/-! ### Rounds -/

/-- What the carry chain **reads and writes**. -/
structure Chain where
  a : Byte
  de : BitVec 16
  hl : BitVec 16
  carry : Bool
  window : Window

namespace Chain

/-- The operations of a **round**: a byte of each number, the lower ones first, which are added or
subtracted with the carry. -/
def round (op : AluOp) : List Operation :=
  [.load (.register .a) (.indirect .de), .alu op .indirectHl,
    .load .indirectHlIncrement (.register .a), .increment16 .de]

/-- The operations of one round after another. -/
def rounds (op : AluOp) : (n : Nat) → List Operation
  | 0 => []
  | n + 1 => round op ++ rounds op n

/-- What an operation of a round does. -/
def after (c : Chain) : Operation → Chain
  | .load (.register .a) (.indirect .de) => { c with a := c.window.get c.de }
  | .alu op .indirectHl =>
    let r := alu op c.a (c.window.get c.hl) c.carry
    { c with a := r.value, carry := r.carry }
  | .load .indirectHlIncrement (.register .a) =>
    { c with window := c.window.set c.hl c.a, hl := c.hl + 1 }
  | .increment16 .de => { c with de := c.de + 1 }
  | _ => c

/-- Whether an operation is one of a round, reads plain memory only, and writes RAM only that is no
part of some code. -/
def Allows (code : Address → Prop) (c : Chain) : Operation → Prop
  | .load (.register .a) (.indirect .de) => c.de.toNat < 0xFE00
  | .alu op .indirectHl => op ≠ .cp ∧ c.hl.toNat < 0xFE00
  | .load .indirectHlIncrement (.register .a) =>
    0x8000 ≤ c.hl.toNat ∧ c.hl.toNat < 0xFE00 ∧ ¬ code c.hl
  | .increment16 .de => True
  | _ => False

/-- What operations do one after another. -/
def run (c : Chain) (operations : List Operation) : Chain := operations.foldl after c

/-- Whether every operation is allowed when its turn comes. -/
def AllowsAll (code : Address → Prop) : Chain → List Operation → Prop
  | _, [] => True
  | c, o :: os => c.Allows code o ∧ (c.after o).AllowsAll code os

/-- What a round does. -/
def next (op : AluOp) (c : Chain) : Chain :=
  let r := alu op (c.window.get c.de) (c.window.get c.hl) c.carry
  ⟨r.value, c.de + 1, c.hl + 1, r.carry, c.window.set c.hl r.value⟩

theorem run_rounds_succ (op : AluOp) (n : Nat) (c : Chain) :
    c.run (rounds op (n + 1)) = (c.next op).run (rounds op n) := by
  rw [run, rounds, List.foldl_append]
  rfl

/-- Where the numbers may lie: in RAM, apart from each other, and the one at HL apart from the
code. -/
structure Fits (code : Address → Prop) (c : Chain) (n : Nat) : Prop where
  ram : 0x8000 ≤ c.hl.toNat
  hl : c.hl.toNat + n ≤ 0xFE00
  de : c.de.toNat + n ≤ 0xFE00
  apart : c.hl.toNat + n ≤ c.de.toNat ∨ c.de.toNat + n ≤ c.hl.toNat
  code : ∀ a : Address, c.hl.toNat ≤ a.toNat → a.toNat < c.hl.toNat + n → ¬ code a

variable {code : Address → Prop} {c : Chain} {n : Nat} {op : AluOp}

/-- The addresses of the next round are one further up, and do not wrap around. -/
theorem Fits.toNat_next (h : c.Fits code (n + 1)) (op : AluOp) :
    (c.next op).hl.toNat = c.hl.toNat + 1 ∧ (c.next op).de.toNat = c.de.toNat + 1 := by
  have hhl := h.hl
  have hde := h.de
  rw [Chain.next]
  constructor <;> bv_omega

theorem Fits.next (h : c.Fits code (n + 1)) (op : AluOp) : (c.next op).Fits code n := by
  obtain ⟨hhl', hde'⟩ := h.toNat_next op
  obtain ⟨hram, hhl, hde, hapart, hcode⟩ := h
  refine ⟨by omega, by omega, by omega, by omega, fun a hlow hhigh => ?_⟩
  exact hcode a (by omega) (by omega)

/-- Rounds **keep to RAM** and leave the code alone: the numbers that they write lie apart from
it. -/
theorem Fits.allowsAll (h : c.Fits code n) (hop : op ≠ .cp) : c.AllowsAll code (rounds op n) := by
  induction n generalizing c with
  | zero => trivial
  | succ n ih =>
    have hcode := h.code c.hl (Nat.le_refl _) (by omega)
    have hhl : c.hl.toNat < 0xFE00 := Nat.lt_of_lt_of_le (by omega) h.hl
    have hde : c.de.toNat < 0xFE00 := Nat.lt_of_lt_of_le (by omega) h.de
    exact ⟨hde, ⟨hop, hhl⟩, ⟨h.ram, hhl, hcode⟩, trivial, ih (h.next op)⟩

/-- Rounds move HL and DE behind the numbers and **change no byte** but those of the number at HL.
The induction is on the number of rounds. -/
theorem Fits.frame (h : c.Fits code n) (op : AluOp) :
    (c.run (rounds op n)).hl = c.hl + BitVec.ofNat 16 n ∧
      (c.run (rounds op n)).de = c.de + BitVec.ofNat 16 n ∧
      ∀ a : Address, a.toNat < c.hl.toNat ∨ c.hl.toNat + n ≤ a.toNat →
        (c.run (rounds op n)).window.get a = c.window.get a := by
  induction n generalizing c with
  | zero => exact ⟨(BitVec.add_zero _).symm, (BitVec.add_zero _).symm, fun _ _ => rfl⟩
  | succ n ih =>
    obtain ⟨hhl, hde, hget⟩ := ih (h.next op)
    obtain ⟨hhl', -⟩ := h.toNat_next op
    have hsucc (a : Address) : a + 1 + BitVec.ofNat 16 n = a + BitVec.ofNat 16 (n + 1) := by
      rw [Nat.add_comm n 1, BitVec.ofNat_add, BitVec.add_assoc]
      rfl
    rw [run_rounds_succ]
    refine ⟨hhl.trans (hsucc c.hl), hde.trans (hsucc c.de), fun a ha => ?_⟩
    have hne : a ≠ c.hl := by
      rintro rfl
      omega
    rw [hget a (by omega), Chain.next, Window.get_set, if_neg hne]

/-- **Rounds add or subtract** the numbers at HL and DE with the carry, and leave the result at HL.
The induction is on the number of rounds, of which the first one takes the lowest digits. -/
theorem Fits.chained (h : c.Fits code n) (hop : op = .adc ∨ op = .sbc) :
    Chained op (256 ^ n) (c.window.number c.hl n) (c.window.number c.de n) c.carry.toNat
      ((c.run (rounds op n)).window.number c.hl n) (c.run (rounds op n)).carry.toNat := by
  induction n generalizing c with
  | zero =>
    rcases hop with rfl | rfl
    · simp [Chained, Window.number, rounds, run]
    · simp [Chained, Window.number, rounds, run]
  | succ n ih =>
    have hhl := h.hl
    have hde := h.de
    have hapart := h.apart
    obtain ⟨hhl', hde'⟩ : (c.hl + 1).toNat = c.hl.toNat + 1 ∧ (c.de + 1).toNat = c.de.toNat + 1 :=
      h.toNat_next op
    -- the store changes neither what is left of the numbers nor is it undone
    have hset (a : Address) (ha : a ≠ c.hl) : (c.next op).window.get a = c.window.get a := by
      rw [Chain.next, Window.get_set, if_neg ha]
    have hx : (c.next op).window.number (c.hl + 1) n = c.window.number (c.hl + 1) n := by
      refine Window.number_congr (by omega) fun b hlow _ => hset b ?_
      rintro rfl
      omega
    have hy : (c.next op).window.number (c.de + 1) n = c.window.number (c.de + 1) n := by
      refine Window.number_congr (by omega) fun b hlow hhigh => hset b ?_
      rintro rfl
      omega
    have hbyte : ((c.next op).run (rounds op n)).window.get c.hl =
        (alu op (c.window.get c.de) (c.window.get c.hl) c.carry).value := by
      obtain ⟨-, -, hframe⟩ := (h.next op).frame op
      have hlow : c.hl.toNat < (c.hl + 1).toNat := by omega
      rw [hframe c.hl (.inl hlow), Chain.next, Window.get_set, if_pos rfl]
    have hrest := ih (h.next op)
    have hfirst := chained_alu hop (c.window.get c.de) (c.window.get c.hl) c.carry
    rw [run_rounds_succ, Window.number, Window.number, Window.number, hbyte, Nat.pow_succ, ← hx,
      ← hy]
    exact hfirst.cons hrest

end Chain

end Interpreter

end Dynarec
