import Mathlib.Data.Set.Card
import Dynarec.Proofs.Vm.CacheHistory

/-!
# Invalidation

Invalidating ranges one after another (`invalidateAll`) leaves just the cached blocks that share no
address with any of them, as they are, whatever the order of the ranges
(`VirtualMachine.invalidateAll_eq`, `Cache.without_perm`). No address is cached twice in the life of
a machine (`nodup_after`), so the numbers of dropped blocks add up to the number of addresses that
are cached no longer (`Cache.ncard_dropped`).
-/

namespace Dynarec

open Bridge (GuestMemory)
open Codegen (CompiledBlock)
open Guest (Range)

variable {σ : Type} {setup : Setup σ}

/-- Whether two ranges overlap does not depend on their order. -/
theorem Guest.Range.overlaps_comm (r s : Range) : r.overlaps s = s.overlaps r := Bool.and_comm _ _

/-! ### The blocks that are kept -/

namespace Cache

variable {c : Cache} {a : Address} {block : CompiledBlock}

/-- The guest addresses that are cached, in the order of the blocks. -/
def addresses (c : Cache) : List Address := c.blocks.map (·.1)

/-- The cache without the blocks that overlap **any of some ranges**. -/
def without (c : Cache) (ranges : List Range) : Cache :=
  ⟨c.blocks.filter fun p => ranges.all fun r => !p.2.range.overlaps r⟩

theorem mem_without {ranges : List Range} :
    (a, block) ∈ (c.without ranges).blocks ↔
      (a, block) ∈ c.blocks ∧ ∀ r ∈ ranges, block.range.overlaps r = false := by
  simp [without]

theorem without_nil (c : Cache) : c.without [] = c := by
  simp [without]

/-- Invalidating a range first, and others then. -/
theorem without_cons (c : Cache) (r : Range) (ranges : List Range) :
    (c.invalidate r).without ranges = c.without (r :: ranges) := by
  simp only [without, invalidate, List.filter_filter, List.all_cons]
  refine congrArg Cache.mk (List.filter_congr fun p _ => Bool.and_comm _ _)

/-- The **order** of the ranges does not matter: a block is kept if it overlaps none of them. -/
theorem without_perm (c : Cache) {ranges order : List Range} (h : order.Perm ranges) :
    c.without order = c.without ranges := by
  have hall : ∀ block : CompiledBlock, (order.all fun r => !block.range.overlaps r) =
      ranges.all fun r => !block.range.overlaps r := by
    intro block
    exact h.all_eq
  simp only [without, hall]

theorem contains_iff_mem_addresses : c.contains a = true ↔ a ∈ c.addresses := by
  rw [contains, Option.isSome_iff_ne_none, ne_eq, find?, List.lookup_eq_none_iff, addresses,
    List.mem_map]
  constructor
  · intro h
    by_contra hnone
    exact h fun p hp => bne_iff_ne.mpr fun heq => hnone ⟨p, hp, heq.symm⟩
  · rintro ⟨p, hp, rfl⟩ hnone
    exact bne_iff_ne.mp (hnone p hp) rfl

/-- If no address is cached **twice**, every block in the cache is found. -/
theorem find?_eq_some_iff_mem (hnodup : c.addresses.Nodup) :
    c.find? a = some block ↔ (a, block) ∈ c.blocks := by
  refine ⟨mem_of_find?, fun hmem => ?_⟩
  obtain ⟨earlier, later, hblocks⟩ := List.append_of_mem hmem
  refine List.lookup_eq_some_iff.mpr ⟨earlier, later, hblocks, fun p hp => bne_iff_ne.mpr ?_⟩
  intro heq
  rw [addresses, hblocks, List.map_append, List.nodup_append] at hnodup
  exact hnodup.2.2 p.1 (List.mem_map_of_mem hp) a (List.mem_map_of_mem List.mem_cons_self) heq.symm

theorem nodup_without (hnodup : c.addresses.Nodup) (ranges : List Range) :
    (c.without ranges).addresses.Nodup :=
  hnodup.sublist (List.filter_sublist.map _)

theorem nodup_insert (hnodup : c.addresses.Nodup) (hnone : c.find? a = none) :
    (c.insert a block).addresses.Nodup := by
  refine List.nodup_cons.mpr ⟨fun hmem => ?_, hnodup⟩
  have hcontains := contains_iff_mem_addresses.mpr hmem
  rw [contains, hnone] at hcontains
  cases hcontains

/-- If no address is cached twice, there are as many addresses as **blocks**. -/
theorem ncard_contains (hnodup : c.addresses.Nodup) :
    {a | c.contains a = true}.ncard = c.blocks.length := by
  have hset : {a | c.contains a = true} = c.addresses.toFinset := by
    ext a
    rw [Set.mem_ofPred_eq, contains_iff_mem_addresses, List.coe_toFinset, Set.mem_ofPred_eq]
  rw [hset, Set.ncard_coe_finset, List.toFinset_card_of_nodup hnodup, addresses, List.length_map]

/-- **How many addresses** are cached no longer when some blocks have been dropped: as many as
blocks. -/
theorem ncard_dropped (hnodup : c.addresses.Nodup) (ranges : List Range) :
    {a | c.contains a = true ∧ (c.without ranges).contains a = false}.ncard +
      (c.without ranges).blocks.length = c.blocks.length := by
  have hset : {a | c.contains a = true ∧ (c.without ranges).contains a = false} =
      {a | c.contains a = true} \ {a | (c.without ranges).contains a = true} := by
    ext a
    simp
  have hsubset : {a | (c.without ranges).contains a = true} ⊆ {a | c.contains a = true} := by
    intro a ha
    obtain ⟨p, hp, rfl⟩ := List.mem_map.mp (contains_iff_mem_addresses.mp ha)
    exact contains_iff_mem_addresses.mpr (List.mem_map_of_mem (mem_without.mp hp).1)
  have hfinite : {a | c.contains a = true}.Finite := by
    refine (List.finite_toSet c.addresses).subset fun a ha => ?_
    exact contains_iff_mem_addresses.mp ha
  rw [hset, ← ncard_contains hnodup, ← ncard_contains (nodup_without hnodup ranges)]
  exact Set.ncard_sdiff_add_ncard_of_subset hsubset hfinite

/-- What an invalidation **counts** is what the cache loses. -/
theorem countOverlapping_add_length (c : Cache) (r : Range) :
    c.countOverlapping r + (c.invalidate r).blocks.length = c.blocks.length := by
  rw [countOverlapping, List.countP_eq_length_filter]
  exact (List.length_eq_length_filter_add _).symm

end Cache

/-! ### One range after another -/

namespace VirtualMachine

/-- Invalidates ranges **one after another**. Yields how many blocks each of them dropped. -/
def invalidateAll (vm : VirtualMachine σ) : List Range → List Nat × VirtualMachine σ
  | [] => ([], vm)
  | r :: ranges =>
    let (count, vm) := vm.invalidate r
    let (counts, vm) := vm.invalidateAll ranges
    (count :: counts, vm)

/-- What ranges **leave**, and how much they drop altogether. The induction is on the ranges. -/
theorem invalidateAll_eq (vm : VirtualMachine σ) (ranges : List Range) :
    (vm.invalidateAll ranges).2 = { vm with cache := vm.cache.without ranges } ∧
      (vm.invalidateAll ranges).1.sum + (vm.cache.without ranges).blocks.length =
        vm.cache.blocks.length := by
  induction ranges generalizing vm with
  | nil =>
    rw [Cache.without_nil]
    exact ⟨rfl, Nat.zero_add _⟩
  | cons r ranges ih =>
    obtain ⟨hleft, hsum⟩ := ih (vm.invalidate r).2
    have hcache : (vm.invalidate r).2.cache = vm.cache.invalidate r := rfl
    rw [hcache, Cache.without_cons] at hleft hsum
    refine ⟨hleft, ?_⟩
    have hfirst := vm.cache.countOverlapping_add_length r
    have hcounts : (vm.invalidateAll (r :: ranges)).1 =
        vm.cache.countOverlapping r :: ((vm.invalidate r).2.invalidateAll ranges).1 := rfl
    rw [hcounts, List.sum_cons, Nat.add_assoc, hsum]
    exact hfirst

/-- Ranges that overlap no cached block **drop nothing**. -/
theorem invalidateAll_of_without {vm : VirtualMachine σ} {ranges : List Range}
    (h : vm.cache.without ranges = vm.cache) :
    (∀ count ∈ (vm.invalidateAll ranges).1, count = 0) ∧ (vm.invalidateAll ranges).2 = vm := by
  obtain ⟨hleft, hsum⟩ := vm.invalidateAll_eq ranges
  rw [h] at hleft hsum
  have hzero : (vm.invalidateAll ranges).1.sum = 0 := by omega
  exact ⟨List.sum_eq_zero_iff_forall_eq_nat.mp hzero, hleft⟩

theorem length_invalidateAll (vm : VirtualMachine σ) (ranges : List Range) :
    (vm.invalidateAll ranges).1.length = ranges.length := by
  induction ranges generalizing vm with
  | nil => rfl
  | cons r ranges ih => exact congrArg Nat.succ (ih (vm.invalidate r).2)

end VirtualMachine

/-- Dropping blocks **once more** makes no difference: no block is left that overlaps one of the
ranges. -/
theorem Cache.without_without (c : Cache) {ranges again : List Range} (h : again ⊆ ranges) :
    (c.without ranges).without again = c.without ranges := by
  refine congrArg Cache.mk (List.filter_eq_self.mpr fun p hp => ?_)
  have hapart := (mem_without.mp hp).2
  exact List.all_eq_true.mpr fun r hr => by rw [hapart r (h hr), Bool.not_false]

/-! ### Histories -/

/-- Finding a block, or compiling it into the cache, **caches no address twice**. -/
theorem VirtualMachine.nodup_blockAt {vm vm' : VirtualMachine σ} {start : Address}
    {block : CompiledBlock} (hnodup : vm.cache.addresses.Nodup)
    (h : vm.blockAt setup start = .ok (block, vm')) : vm'.cache.addresses.Nodup := by
  rw [blockAt] at h
  split at h
  · cases h
    exact hnodup
  · next hnone =>
    split at h
    · cases h
    · cases h
      exact Cache.nodup_insert hnodup hnone

namespace Workbench

/-- No operation caches an address twice: a block is compiled only if none is cached at its
address. -/
theorem nodup_next {w : Workbench σ} (hnodup : w.vm.cache.addresses.Nodup) (action : Action) :
    (w.next setup action).vm.cache.addresses.Nodup := by
  by_cases hrun : action = .run
  · subst hrun
    cases hblock : w.block? setup .run with
    | none =>
      rw [(next_run_of_block?_eq_none hblock).1]
      exact hnodup
    | some block =>
      obtain ⟨vm', hat⟩ := exists_blockAt_of_block? hblock
      rw [cache_next_run hat]
      exact VirtualMachine.nodup_blockAt hnodup hat
  · by_cases hinvalidate : ∃ r, action = .invalidate r
    · obtain ⟨r, rfl⟩ := hinvalidate
      exact hnodup.sublist (List.filter_sublist.map _)
    · rw [cache_next hrun (not_exists.mp hinvalidate)]
      exact hnodup

/-- **No address is cached twice** in the life of a machine. -/
theorem nodup_after {w : Workbench σ} (hempty : w.vm.cache = .empty) (history : List Action) :
    (w.after setup history).vm.cache.addresses.Nodup := by
  induction history using List.reverseRecOn with
  | nil =>
    rw [after_nil, hempty]
    exact List.nodup_nil
  | append_singleton history action ih =>
    rw [after_snoc]
    exact nodup_next ih action

/-- **Invalidation is exact and order-free.** Take a machine after any history, and some ranges in
any order. Invalidating them one after another changes nothing but the cache, which keeps just the
blocks that share no address with any of the ranges, as they are. The numbers of dropped blocks add
up to the number of addresses that are cached no longer, so their sum is the same for every order.
Invalidating the ranges again, all of them or some, drops nothing. Ranges overlap exactly if they
share an address, whichever comes first and also if they end at the top of memory. -/
theorem invalidation_exact (setup : Setup σ) (memory : GuestMemory σ) (history : List Action)
    {ranges order : List Range} (horder : order.Perm ranges) :
    let vm := ((ofMemory memory).after setup history).vm
    let left := (vm.invalidateAll order).2
    left = { vm with cache := left.cache } ∧
      (∀ a block, left.cache.find? a = some block ↔ vm.cache.find? a = some block ∧
        ∀ r ∈ ranges, ¬ ∃ b, block.range.contains b = true ∧ r.contains b = true) ∧
      (vm.invalidateAll order).1.length = ranges.length ∧
      (vm.invalidateAll order).1.sum =
        {a | vm.isCached a = true ∧ left.isCached a = false}.ncard ∧
      (vm.invalidateAll order).1.sum = (vm.invalidateAll ranges).1.sum ∧
      (∀ again ⊆ ranges, (∀ count ∈ (left.invalidateAll again).1, count = 0) ∧
        (left.invalidateAll again).2 = left) ∧
      ∀ r s : Range,
        (r.overlaps s = true ↔ ∃ a, r.contains a = true ∧ s.contains a = true) ∧
          r.overlaps s = s.overlaps r := by
  intro vm left
  obtain ⟨hleft, hsum⟩ := vm.invalidateAll_eq order
  have hcache : left.cache = vm.cache.without ranges :=
    (congrArg VirtualMachine.cache hleft).trans (vm.cache.without_perm horder)
  have hnodup : vm.cache.addresses.Nodup := nodup_after rfl history
  have hdropped := Cache.ncard_dropped hnodup ranges
  rw [vm.cache.without_perm horder] at hsum
  -- what is left does not depend on the order, and everything else is said about what is left
  refine ⟨?_, fun a block => ?_, ?_, ?_, ?_, fun again hagain => ?_,
    fun r s => ⟨Range.overlaps_iff, r.overlaps_comm s⟩⟩
  · rw [hcache, ← vm.cache.without_perm horder]
    exact hleft
  · rw [hcache, Cache.find?_eq_some_iff_mem (Cache.nodup_without hnodup ranges),
      Cache.find?_eq_some_iff_mem hnodup, Cache.mem_without]
    refine and_congr_right fun _ => forall₂_congr fun r _ => ?_
    rw [← Range.overlaps_iff, Bool.not_eq_true]
  · rw [VirtualMachine.length_invalidateAll, horder.length_eq]
  · change _ = {a | vm.cache.contains a = true ∧ left.cache.contains a = false}.ncard
    rw [hcache]
    omega
  · have hsum' := (vm.invalidateAll_eq ranges).2
    omega
  · refine VirtualMachine.invalidateAll_of_without ?_
    rw [hcache, Cache.without_without _ hagain]

/-- The last address of memory. -/
def lastAddress : Range := ⟨0xFFFF, 1, Nat.one_pos, by decide⟩

/-- When the loop has run it is the only block in the cache, at the address where it starts. -/
theorem find?_spinning : ∃ block : CompiledBlock, block.range.contains 2 = true ∧
    ∀ a b, ((ofMemory spinning).after (Demo.setupWith 64) [.run]).vm.cache.find? a = some b ↔
      a = 0 ∧ b = block := by
  obtain ⟨block, hblock, hstart, hstop⟩ := block?_spinning
  refine ⟨block, ?_, fun a b => ?_⟩
  · rw [Range.contains_iff, hstart, hstop]
    decide
  rw [find?_after_iff rfl]
  constructor
  · rintro ⟨before, since, hsplit, hnext, hrun, -⟩
    obtain ⟨rfl, -⟩ : before = [] ∧ since = [] := by
      cases before with
      | nil => exact ⟨rfl, (List.cons.inj hsplit).2.symm⟩
      | cons action before => cases before <;> cases (List.cons.inj hsplit).2
    exact ⟨hnext.symm, Option.some.inj (hrun.symm.trans hblock)⟩
  · rintro ⟨rfl, rfl⟩
    exact ⟨[], [], rfl, rfl, hblock, nofun⟩

/-- One of two ranges drops the loop, whichever comes first. -/
theorem invalidation_exact_spinning :
    [lastOfLoop, lastAddress].Perm [lastAddress, lastOfLoop] ∧
      let vm := ((ofMemory spinning).after (Demo.setupWith 64) [.run]).vm
      (vm.invalidateAll [lastOfLoop, lastAddress]).1.sum = 1 ∧
        (vm.invalidateAll [lastOfLoop, lastAddress]).2.isCached 0 = false := by
  have horder : [lastOfLoop, lastAddress].Perm [lastAddress, lastOfLoop] := .swap _ _ _
  refine ⟨horder, ?_⟩
  obtain ⟨block, hcontains, hfind⟩ := find?_spinning
  obtain ⟨-, hkept, -, hsum, -⟩ :=
    invalidation_exact (Demo.setupWith 64) spinning [.run] horder
  generalize ((ofMemory spinning).after (Demo.setupWith 64) [.run]).vm = vm at hfind hkept hsum
  -- the block of the loop has an address of the range
  have hdropped : (vm.invalidateAll [lastOfLoop, lastAddress]).2.isCached 0 = false := by
    rw [VirtualMachine.isCached, Cache.contains, Option.isSome_eq_false_iff,
      Option.isNone_iff_eq_none, Option.eq_none_iff_forall_ne_some]
    intro b hb
    obtain ⟨hcached, hapart⟩ := (hkept 0 b).mp hb
    obtain ⟨-, rfl⟩ := (hfind 0 b).mp hcached
    exact hapart lastOfLoop (List.mem_cons_of_mem _ List.mem_cons_self) ⟨2, hcontains, by decide⟩
  have hcached : ∀ a, vm.isCached a = true ↔ a = 0 := by
    intro a
    rw [VirtualMachine.isCached, Cache.contains, Option.isSome_iff_exists]
    constructor
    · rintro ⟨b, hb⟩
      exact ((hfind a b).mp hb).1
    · intro ha
      exact ⟨block, (hfind a block).mpr ⟨ha, rfl⟩⟩
  have hset : {a | vm.isCached a = true ∧
      (vm.invalidateAll [lastOfLoop, lastAddress]).2.isCached a = false} = {0} := by
    ext a
    rw [Set.mem_ofPred_eq, hcached, Set.mem_singleton_iff]
    exact ⟨And.left, fun ha => ⟨ha, ha ▸ hdropped⟩⟩
  exact ⟨by rw [hsum, hset, Set.ncard_singleton], hdropped⟩

end Workbench

end Dynarec
