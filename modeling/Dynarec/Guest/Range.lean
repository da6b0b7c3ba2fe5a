import Dynarec.Fault

/-!
# Guest ranges

A `Range` is a nonempty interval of guest addresses that ends at the top of memory at the latest, so
its exclusive end may be `0x10000`, which is no address. `Range.mem_iff` and `Range.overlaps_iff`
say what membership and overlap mean in terms of addresses.
-/

namespace Dynarec.Guest

/-- A nonempty interval of guest addresses. -/
structure Range where
  start : Address
  size : Nat
  size_pos : 0 < size
  fits : start.toNat + size ≤ 0x10000
  deriving DecidableEq

namespace Range

/-- The range of `size` addresses from `start` on. `size` is a 64 bit number; the sum with `start`
is formed in 64 bits before it is compared with the top of memory. -/
def mk? (start : Address) (size : Nat) : Except Fault Range :=
  if hpos : 0 < size then
    if 0x10000000000000000 ≤ start.toNat + size then .error .rangeOverflow
    else if hfits : start.toNat + size ≤ 0x10000 then .ok ⟨start, size, hpos, hfits⟩
    else .error .rangePastTop
  else .error .emptyRange

/-- The **exclusive end**, at most `0x10000`. -/
def stop (r : Range) : Nat := r.start.toNat + r.size

/-- Whether an address lies in the range. -/
def contains (r : Range) (a : Address) : Bool :=
  decide (r.start.toNat ≤ a.toNat) && decide (a.toNat < r.stop)

/-- Whether two ranges **overlap**. -/
def overlaps (r s : Range) : Bool :=
  decide (r.start.toNat < s.stop) && decide (s.start.toNat < r.stop)

theorem mk?_eq_ok {start : Address} {size : Nat} (hpos : 0 < size)
    (hfits : start.toNat + size ≤ 0x10000) :
    mk? start size = .ok ⟨start, size, hpos, hfits⟩ := by
  have h64 : ¬ 0x10000000000000000 ≤ start.toNat + size := by omega
  rw [mk?, dif_pos hpos, if_neg h64, dif_pos hfits]

theorem contains_iff {r : Range} {a : Address} :
    r.contains a = true ↔ r.start.toNat ≤ a.toNat ∧ a.toNat < r.stop := by
  simp [contains]

/-- Two ranges overlap exactly when they share an address. -/
theorem overlaps_iff {r s : Range} :
    r.overlaps s = true ↔ ∃ a, r.contains a = true ∧ s.contains a = true := by
  have hr := r.size_pos
  have hs := s.size_pos
  have hr' := r.fits
  have hs' := s.fits
  simp only [overlaps, Bool.and_eq_true, decide_eq_true_eq, contains_iff]
  simp only [stop]
  refine ⟨fun ⟨h₁, h₂⟩ => ?_, fun ⟨a, h₁, h₂⟩ => by omega⟩
  by_cases h : r.start.toNat ≤ s.start.toNat
  · exact ⟨s.start, by omega⟩
  · exact ⟨r.start, by omega⟩

end Range

end Dynarec.Guest
