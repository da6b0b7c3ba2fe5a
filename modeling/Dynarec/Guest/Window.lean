import Dynarec.Guest.Range

/-!
# The guest window

The 64 KiB of guest memory that generated code addresses directly. A `Window` maps every guest
address to a byte; it is held as a perfect binary tree over the sixteen address bits, so that an
update shares all but one path with the window before it.

The laws that everything else uses are `Window.get_set` (a store changes one byte) and `Window.ext`
(a window is its bytes).
-/

namespace Dynarec.Guest

/-- A perfect binary tree with a byte for every word of `n` bits. -/
inductive ByteTree : Nat → Type
  | leaf (value : Byte) : ByteTree 0
  | node {n : Nat} (low high : ByteTree n) : ByteTree (n + 1)

namespace ByteTree

/-- The tree that holds one byte everywhere. -/
def replicate (value : Byte) : (n : Nat) → ByteTree n
  | 0 => leaf value
  | n + 1 => node (replicate value n) (replicate value n)

/-- The byte at an address. The highest address bit is the first choice. -/
def get : {n : Nat} → ByteTree n → BitVec n → Byte
  | _, leaf value, _ => value
  | n + 1, node low high, a =>
    if a.msb then high.get (a.setWidth n) else low.get (a.setWidth n)

/-- The tree with another byte at an address. -/
def set : {n : Nat} → ByteTree n → BitVec n → Byte → ByteTree n
  | _, leaf _, _, value => leaf value
  | n + 1, node low high, a, value =>
    if a.msb then node low (high.set (a.setWidth n) value)
    else node (low.set (a.setWidth n) value) high

/-- The addresses at which two trees differ, with the bytes of the second, in ascending order in
front of `rest`. `base` is the address of the first leaf. -/
def changes : {n : Nat} → (before after : ByteTree n) → (base : Nat) →
    (rest : List (Nat × Byte)) → List (Nat × Byte)
  | _, leaf x, leaf y, base, rest => if x = y then rest else (base, y) :: rest
  | n + 1, node low high, node low' high', base, rest =>
    changes low low' base (changes high high' (base + 2 ^ n) rest)

/-- An address is its highest bit and the bits below it. -/
private theorem eq_of_setWidth_eq {n : Nat} {a b : BitVec (n + 1)} (hbit : a.msb = b.msb)
    (hrest : a.setWidth n = b.setWidth n) : a = b := by
  apply BitVec.eq_of_getLsbD_eq
  intro i hi
  by_cases h : i = n
  · simpa [h, BitVec.msb_eq_getLsbD_last] using hbit
  · have := congrArg (fun v : BitVec n => v.getLsbD i) hrest
    simpa [show i < n by omega] using this

@[simp]
theorem get_replicate (value : Byte) {n : Nat} (a : BitVec n) :
    (replicate value n).get a = value := by
  induction n with
  | zero => rfl
  | succ n ih => simp [replicate, get, ih]

theorem get_set {n : Nat} (t : ByteTree n) (a b : BitVec n) (value : Byte) :
    (t.set a value).get b = if b = a then value else t.get b := by
  induction t with
  | leaf x => simp [set, get, BitVec.eq_nil a, BitVec.eq_nil b]
  | @node n low high ihl ihh =>
    by_cases hbit : b.msb = a.msb
    · have hiff : b.setWidth n = a.setWidth n ↔ b = a :=
        ⟨eq_of_setWidth_eq hbit, fun h => by rw [h]⟩
      cases ha : a.msb <;> simp only [ha] at hbit
      · simp [set, get, ha, hbit, ihl, hiff]
      · simp [set, get, ha, hbit, ihh, hiff]
    · have hne : b ≠ a := fun h => hbit (by rw [h])
      cases ha : a.msb <;> cases hb : b.msb <;> simp_all [set, get]

theorem ext {n : Nat} {t u : ByteTree n} (h : ∀ a, t.get a = u.get a) : t = u := by
  induction t with
  | leaf x =>
    cases u with
    | leaf y => exact congrArg leaf (h 0)
  | @node n low high ihl ihh =>
    cases u with
    | node low' high' =>
      have key : ∀ (bit : Bool) (a : BitVec n),
          (BitVec.cons bit a).msb = bit ∧ (BitVec.cons bit a).setWidth n = a :=
        fun bit a => ⟨BitVec.msb_cons, BitVec.setWidth_cons⟩
      rw [@ihl low', @ihh high']
      · intro a
        have := h (BitVec.cons true a)
        simpa [get, key true a] using this
      · intro a
        have := h (BitVec.cons false a)
        simpa [get, key false a] using this

end ByteTree

/-- The **guest window**: one byte for every guest address. -/
structure Window where
  bytes : ByteTree 16

namespace Window

/-- The window that holds zero everywhere. -/
def zeros : Window := ⟨.replicate 0 16⟩

/-- The byte at an address. -/
def get (w : Window) (a : Address) : Byte := w.bytes.get a

/-- The window with another byte at an address. -/
def set (w : Window) (a : Address) (value : Byte) : Window := ⟨w.bytes.set a value⟩

/-- The little endian word at an address. Its second byte wraps at the top of memory. -/
def getWord (w : Window) (a : Address) : BitVec 16 := w.get (a + 1) ++ w.get a

/-- The window with another little endian word at an address. Its second byte wraps at the top of
memory. -/
def setWord (w : Window) (a : Address) (value : BitVec 16) : Window :=
  (w.set a (value.extractLsb' 0 8)).set (a + 1) (value.extractLsb' 8 8)

/-- The window with bytes stored from an address on, which wraps at the top of memory. -/
def store (w : Window) (a : Address) : List Byte → Window
  | [] => w
  | b :: bs => (w.set a b).store (a + 1) bs

/-- The window with bytes copied to an address, or `none` if they reach past the top of memory. -/
def load? (w : Window) (a : Address) (data : List Byte) : Option Window :=
  if a.toNat + data.length ≤ 0x10000 then some (w.store a data) else none

/-- Collects neighbouring addresses into maximal runs. -/
private def runs : List (Nat × Byte) → List (Nat × List Byte)
  | [] => []
  | (a, b) :: rest =>
    match runs rest with
    | [] => [(a, [b])]
    | (a', bs) :: later =>
      if a' = a + 1 then (a, b :: bs) :: later else (a, [b]) :: (a', bs) :: later

/-- The bytes of `w` that differ from those `before`, as maximal runs of neighbouring addresses in
ascending order. -/
def changesSince (w before : Window) : List (Nat × List Byte) :=
  runs (before.bytes.changes w.bytes 0 [])

@[simp]
theorem get_zeros (a : Address) : zeros.get a = 0 := ByteTree.get_replicate 0 a

/-- A store changes one byte and keeps the others. -/
theorem get_set (w : Window) (a b : Address) (value : Byte) :
    (w.set a value).get b = if b = a then value else w.get b :=
  w.bytes.get_set a b value

/-- A window is determined by its bytes. -/
theorem ext {w v : Window} (h : ∀ a, w.get a = v.get a) : w = v := by
  cases w
  cases v
  exact congrArg Window.mk (ByteTree.ext h)

end Window

end Dynarec.Guest
