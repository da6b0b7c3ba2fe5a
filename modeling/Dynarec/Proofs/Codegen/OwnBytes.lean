import Dynarec.Proofs.Codegen.LongImages
import Dynarec.Proofs.Guest.Reading
import Dynarec.Proofs.Guest.Tables

/-!
# Compiling reads a block's own bytes

Compiling the block at a guest address looks at the bytes from there to its reach and at no other
(`fst_notedScan`). So two images of one size that agree on these bytes compile to the same block, or
fail with the same error (`compile_own_bytes`). If compiling succeeds, the bytes looked at are those
of the block's range, and each of them is part of exactly one of its instructions.
-/

namespace Dynarec.Codegen

open Bridge (Layout)
open Guest (Image Scan)

variable {config : Config} {layout : Layout} {image image' : Image} {start : Address}

/-- Reads the block at a guest address and **notes the indices of the bytes** that are looked at. -/
def notedScan (config : Config) (image : Image) (start : Address) : List Nat × Scan :=
  image.noteScan (config.maxBlockInstructions - 1) start.toNat

/-- Compiling looks at the bytes **up to its reach**. -/
theorem fst_notedScan (config : Config) (image : Image) (start : Address) :
    (notedScan config image start).1 =
      List.range' start.toNat (reach config image start - start.toNat) :=
  image.fst_noteScan _ _

/-- Compiling depends on the bytes **up to its reach** only. -/
theorem compile_congr_of_reach (hsize : image'.size = image.size)
    (hbytes : ∀ k, start.toNat ≤ k → k < reach config image start →
      image'.byte k = image.byte k) :
    compile config layout image' start = compile config layout image start := by
  have hscan : scan config image' start = scan config image start :=
    Image.scan_congr_of_extent hsize hbytes
  rw [compile, compile, hscan]

/-- The range of a compiled block goes from its guest address **to its reach**, and is decoded to as
many instructions as the block reports. -/
theorem range_of_compile (hsize : image.size ≤ 0x10000) {block : CompiledBlock}
    (h : compile config layout image start = .ok block) :
    block.range.start = start ∧ block.range.stop = reach config image start ∧
      ∃ listing, image.Decodes start.toNat listing block.range.stop ∧
        block.instructionCount = listing.length := by
  obtain ⟨listing, ending, hscan, -⟩ := code_of_compile h
  have houtcome : (scan config image start).outcome = .ok ending := by rw [hscan]
  obtain ⟨block', hblock, htranslates⟩ := compile_of_scan layout hsize houtcome
  obtain rfl : block' = block := Except.ok.inj (hblock.symm.trans h)
  have hreach : reach config image start = ending.cursor := Image.extent_of_scan houtcome
  refine ⟨htranslates.start, htranslates.stop.trans hreach.symm, _, ?_, htranslates.count⟩
  rw [htranslates.stop]
  exact (Image.reads_of_scan houtcome).decodes

/-- **A block depends on its own bytes only.** Take two images of one size that fit guest memory,
and compile the block at a guest address, with notes taken of the bytes that are looked at while it
is being read. If the first image compiles, these are the bytes of the block's range, one after
another, and no other; if the second one has the same bytes there, it compiles to the same block:
the same host code, the same range and the same number of instructions. Every address of the range
belongs to exactly one of the instructions counted. If the first image does not compile, the bytes
looked at are those from the guest address to its reach, one after another; if the second one has
the same bytes there, it fails with the same error. -/
theorem compile_own_bytes (config : Config) (layout : Layout) (hsize : image.size ≤ 0x10000)
    (hsame : image'.size = image.size) (start : Address) :
    (notedScan config image start).2 = scan config image start ∧
    (∀ block, compile config layout image start = .ok block →
      (notedScan config image start).1 =
          List.range' start.toNat (block.range.stop - start.toNat) ∧
      block.range.start = start ∧
      ((∀ k, start.toNat ≤ k → k < block.range.stop → image'.byte k = image.byte k) →
        compile config layout image' start = .ok block) ∧
      ∃ listing, image.Decodes start.toNat listing block.range.stop ∧
        block.instructionCount = listing.length ∧
        ∀ a, block.range.contains a = true → ∃! n : Nat, ∃ p, listing[n]? = some p ∧ p.Covers a) ∧
    (∀ e, compile config layout image start = .error e →
      (notedScan config image start).1 =
          List.range' start.toNat (reach config image start - start.toNat) ∧
      ((∀ k, start.toNat ≤ k → k < reach config image start → image'.byte k = image.byte k) →
        compile config layout image' start = .error e)) := by
  refine ⟨image.snd_noteScan _ _, fun block hblock => ?_,
    fun e herror => ⟨fst_notedScan config image start, ?_⟩⟩
  · obtain ⟨hstart, hstop, listing, hdecodes, hcount⟩ := range_of_compile hsize hblock
    refine ⟨hstop ▸ fst_notedScan config image start, hstart, fun hbytes => ?_, listing, hdecodes,
      hcount, fun a ha => ?_⟩
    · rw [compile_congr_of_reach hsame (hstop ▸ hbytes), hblock]
    · obtain ⟨hlow, hhigh⟩ := Guest.Range.contains_iff.mp ha
      exact hdecodes.existsUnique_covers block.range.fits (hstart ▸ hlow) hhigh
  · intro hbytes
    rw [compile_congr_of_reach hsame hbytes, herror]

/-- A load of a constant and a `HALT`, then an opcode that does not exist and one more byte. -/
def halting (last : Byte) : Image := .ofList [0x3E, 0x05, 0x76, 0xD3, last]

/-- The last byte is not read, neither with the block at the start nor with the one that fails. -/
theorem compile_own_bytes_halting :
    (halting 0).size ≤ 0x10000 ∧ (halting 1).size = (halting 0).size ∧
      (∃ block, compile ⟨64, false⟩ ⟨0x10000, 0x8000⟩ (halting 0) 0 = .ok block ∧
        compile ⟨64, false⟩ ⟨0x10000, 0x8000⟩ (halting 1) 0 = .ok block) ∧
      compile ⟨64, false⟩ ⟨0x10000, 0x8000⟩ (halting 1) 3 =
        .error (.scan (.unknownOpcode 0xD3)) := by
  have hsize : (halting 0).size ≤ 0x10000 := by decide
  have hsame : (halting 1).size = (halting 0).size := rfl
  have hread : (scan ⟨64, false⟩ (halting 0) 0).outcome = .ok ⟨3, false⟩ := rfl
  obtain ⟨block, hblock, htranslates⟩ := compile_of_scan ⟨0x10000, 0x8000⟩ hsize hread
  obtain ⟨-, hok, -⟩ := compile_own_bytes ⟨64, false⟩ ⟨0x10000, 0x8000⟩ hsize hsame 0
  obtain ⟨-, -, herror⟩ := compile_own_bytes ⟨64, false⟩ ⟨0x10000, 0x8000⟩ hsize hsame 3
  obtain ⟨-, -, hagain, -⟩ := hok block hblock
  obtain ⟨-, hfails⟩ := herror (.scan (.unknownOpcode 0xD3)) rfl
  have hstop : block.range.stop = 3 := htranslates.stop
  have hreach : reach ⟨64, false⟩ (halting 0) 3 = 4 := rfl
  have hbytes : ∀ k < 4, (halting 1).byte k = (halting 0).byte k := by decide
  refine ⟨hsize, hsame, ⟨block, hblock, hagain fun k _ hk => hbytes k (by omega)⟩,
    hfails fun k _ hk => hbytes k (by omega)⟩

end Dynarec.Codegen
