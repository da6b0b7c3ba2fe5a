import Dynarec.Vm.Cache

/-!
# Laws of the block cache

What is found after a block has been put in front (`Cache.find?_insert_self`,
`Cache.find?_insert_of_ne`) and after a range has been invalidated (`Cache.find?_invalidate`). A
block that an invalidation does not concern is found where it was.
-/

namespace Dynarec.Cache

open Codegen (CompiledBlock)
open Guest (Range)

variable {c : Cache} {a b : Address} {block : CompiledBlock} {r : Range}

theorem find?_insert_self (c : Cache) (a : Address) (block : CompiledBlock) :
    (c.insert a block).find? a = some block := by
  rw [find?, insert, List.lookup_cons, beq_self_eq_true]

theorem find?_insert_of_ne (h : b ≠ a) (block : CompiledBlock) :
    (c.insert a block).find? b = c.find? b := by
  rw [find?, insert, List.lookup_cons, beq_false_of_ne h]
  rfl

/-- A block that is found is in the cache, under the address at which it was looked for. -/
theorem mem_of_find? (h : c.find? a = some block) : (a, block) ∈ c.blocks := by
  obtain ⟨earlier, later, hblocks, -⟩ := List.lookup_eq_some_iff.mp h
  rw [hblocks]
  exact List.mem_append_right earlier List.mem_cons_self

theorem mem_invalidate :
    (a, block) ∈ (c.invalidate r).blocks ↔
      (a, block) ∈ c.blocks ∧ block.range.overlaps r = false := by
  rw [invalidate, List.mem_filter, Bool.not_eq_true']

/-- A block that does not overlap an **invalidated** range is found as before: the blocks in front
of it may have gone, but they are those of other addresses. -/
theorem find?_invalidate (h : c.find? a = some block) (hrange : block.range.overlaps r = false) :
    (c.invalidate r).find? a = some block := by
  obtain ⟨earlier, later, hblocks, hearlier⟩ := List.lookup_eq_some_iff.mp h
  have hkeep : (!block.range.overlaps r) = true := by rw [hrange, Bool.not_false]
  have hkept : (c.invalidate r).blocks =
      earlier.filter (fun p => !p.2.range.overlaps r) ++
        (a, block) :: later.filter (fun p => !p.2.range.overlaps r) := by
    rw [invalidate, hblocks, List.filter_append, List.filter_cons_of_pos]
    exact hkeep
  refine List.lookup_eq_some_iff.mpr ⟨_, _, hkept, fun p hp => ?_⟩
  exact hearlier p (List.mem_filter.mp hp).1

end Dynarec.Cache
