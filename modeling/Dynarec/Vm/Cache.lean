import Dynarec.Codegen.Compile

/-!
# The block cache

Compiled blocks by the guest address at which they are entered. A block stays until a range that
overlaps its guest bytes is **invalidated**.
-/

namespace Dynarec

open Codegen (CompiledBlock)
open Guest (Range)

/-- The compiled blocks, each with its guest address. -/
structure Cache where
  blocks : List (Address × CompiledBlock)

namespace Cache

/-- The cache without blocks. -/
def empty : Cache := ⟨[]⟩

/-- The block at a guest address. -/
def find? (c : Cache) (a : Address) : Option CompiledBlock := c.blocks.lookup a

/-- Whether there is a block at a guest address. -/
def contains (c : Cache) (a : Address) : Bool := (c.find? a).isSome

/-- The cache with another block. -/
def insert (c : Cache) (a : Address) (b : CompiledBlock) : Cache := ⟨(a, b) :: c.blocks⟩

/-- The cache without the blocks that overlap a range. -/
def invalidate (c : Cache) (r : Range) : Cache :=
  ⟨c.blocks.filter fun (_, b) => !b.range.overlaps r⟩

/-- The number of blocks that overlap a range. -/
def countOverlapping (c : Cache) (r : Range) : Nat :=
  c.blocks.countP fun (_, b) => b.range.overlaps r

end Cache

end Dynarec
