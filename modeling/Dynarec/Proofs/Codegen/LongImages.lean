import Dynarec.Proofs.Codegen.Totality
import Dynarec.Proofs.Guest.Extent

/-!
# Images past the top of guest memory

Guest memory has `0x10000` bytes, but an image may have more, and a block is read from its image
without a look at the top of memory: only the end of the image stops it. How far compiling a block
**reaches** (`reach`) decides what becomes of it (`compile_long_image`). A block that stays below
the top compiles as if the image ended there. A block that reaches past the top never compiles:
where it can be read, its range does not fit guest memory, and forming the range is a fault. If the
image ended at the top, the block would end there as well or run past the end, without a fault.
-/

namespace Dynarec.Codegen

open Bridge (Layout)
open Guest (Image Range)

variable {config : Config} {layout : Layout} {image : Image} {start : Address}

/-- How far compiling the block at a guest address **reaches** into the image: the index after the
last byte that is looked at. -/
def reach (config : Config) (image : Image) (start : Address) : Nat :=
  image.extent (config.maxBlockInstructions - 1) start.toNat

/-- The fault of a range that would end past the top of guest memory. -/
def pastTop (stop : Nat) : Fault :=
  if 0x10000000000000000 ≤ stop then .rangeOverflow else .rangePastTop

theorem mk?_of_lt {stop : Nat} (hstop : 0x10000 < stop) :
    Range.mk? start (stop - start.toNat) = .error (pastTop stop) := by
  have hstart : start.toNat < 0x10000 := start.isLt
  have hpos : 0 < stop - start.toNat := by omega
  have hsum : start.toNat + (stop - start.toNat) = stop := by omega
  have hpast : ¬ start.toNat + (stop - start.toNat) ≤ 0x10000 := by
    rw [hsum]
    exact Nat.not_le.mpr hstop
  rw [Range.mk?, dif_pos hpos, dif_neg hpast, hsum, pastTop]
  split
  · rfl
  · rfl

section

variable (hlong : 0x10000 < image.size)

include hlong

/-- A block that stays **below the top** compiles as if the image ended there. -/
theorem compile_take_of_reach_le (hreach : reach config image start ≤ 0x10000) :
    compile config layout (image.take 0x10000) start = compile config layout image start := by
  have hscan : scan config (image.take 0x10000) start = scan config image start :=
    Image.scan_take hlong start.isLt hreach
  rw [compile, compile, hscan]

/-- If the image ends at the top, a block that would reach **past the top** ends there, or an
instruction of it, which starts below the top, runs past the end. -/
theorem compile_take_of_lt_reach (hreach : 0x10000 < reach config image start) :
    (∃ block, compile config layout (image.take 0x10000) start = .ok block ∧
        block.range.stop = 0x10000) ∨
      ∃ last : Address, 0x10000 < image.fetchExtent last.toNat ∧
        compile config layout (image.take 0x10000) start = .error (.scan (.overrun last)) := by
  have hsize : (image.take 0x10000).size ≤ 0x10000 := Nat.min_le_left ..
  rcases Image.scan_take_of_lt hlong start.isLt hreach with hscan | ⟨last, hlast, hpast, hscan⟩
  · obtain ⟨block, hblock, htranslates⟩ := compile_of_scan layout hsize hscan
    exact .inl ⟨block, hblock, htranslates.stop⟩
  · have hindex : (BitVec.ofNat 16 last).toNat = last := Nat.mod_eq_of_lt hlast
    refine .inr ⟨BitVec.ofNat 16 last, ?_, compile_of_scan_error hscan⟩
    rw [hindex]
    exact hpast

end

/-- A block that reaches **past the top** does not compile: it cannot be read, or its range is a
fault, which comes up after the whole block has been translated. -/
theorem compile_of_lt_reach (hreach : 0x10000 < reach config image start) :
    compile config layout image start =
      match (scan config image start).outcome with
      | .error e => .error (.scan e)
      | .ok _ => .error (.fault (pastTop (reach config image start))) := by
  cases hscan : (scan config image start).outcome with
  | error e => exact compile_of_scan_error hscan
  | ok ending =>
    have hcursor : reach config image start = ending.cursor := Image.extent_of_scan hscan
    rw [compile, hscan]
    dsimp only
    rw [assembleBlock_eq, mk?_of_lt (hcursor ▸ hreach), hcursor]

/-- **Compiling from an image past the top** of guest memory.

* A block that stays below the top compiles as if the image ended there.
* A block that reaches past the top cannot be read, or its range is a fault. If the image ended at
  the top, the block would end there, or an instruction of it would run past the end.
* If the image ended at the top, there would never be a fault. -/
theorem compile_long_image (config : Config) (layout : Layout) {image : Image}
    (hlong : 0x10000 < image.size) (start : Address) :
    (reach config image start ≤ 0x10000 →
      compile config layout image start = compile config layout (image.take 0x10000) start) ∧
    (0x10000 < reach config image start →
      (compile config layout image start =
        match (scan config image start).outcome with
        | .error e => .error (.scan e)
        | .ok _ => .error (.fault (pastTop (reach config image start)))) ∧
      ((∃ block, compile config layout (image.take 0x10000) start = .ok block ∧
          block.range.stop = 0x10000) ∨
        ∃ last : Address, 0x10000 < image.fetchExtent last.toNat ∧
          compile config layout (image.take 0x10000) start = .error (.scan (.overrun last)))) ∧
    ∀ f, compile config layout (image.take 0x10000) start ≠ .error (.fault f) := by
  have hsize : (image.take 0x10000).size ≤ 0x10000 := Nat.min_le_left ..
  refine ⟨fun hreach => (compile_take_of_reach_le hlong hreach).symm, fun hreach =>
    ⟨compile_of_lt_reach hreach, compile_take_of_lt_reach hlong hreach⟩, ?_⟩
  intro f hfault
  obtain ⟨_, _, -, -, -, hcompile⟩ := compile_total config layout hsize start
  rw [hfault] at hcompile
  rcases hcompile with ⟨_, _, -, hok, -⟩ | ⟨_, h⟩ | ⟨_, _, h⟩ | ⟨_, h⟩
  · cases hok
  all_goals cases h

/-- An image with one byte more than guest memory. The last instruction, `LD A, d8`, starts at the
top of memory and has its operand past it. -/
def straddling : Image := ⟨0x10001, fun i => if i = 0xFFFF then 0x3E else 0x12⟩

theorem scan_straddling : scan ⟨64, false⟩ straddling 0xFFFF =
    ⟨[⟨0xFFFF, .load (.register .a) (.immediate 0x12), 2⟩], .ok ⟨0x10001, true⟩⟩ := rfl

theorem compile_long_image_straddling :
    0x10000 < straddling.size ∧ reach ⟨64, false⟩ straddling 0xFFFF = 0x10001 ∧
      compile ⟨64, false⟩ ⟨0x10000, 0x8000⟩ straddling 0xFFFF =
        .error (.fault .rangePastTop) := by
  have hlong : 0x10000 < straddling.size := by decide
  have hreach : reach ⟨64, false⟩ straddling 0xFFFF = 0x10001 := rfl
  obtain ⟨-, hpast, -⟩ := compile_long_image ⟨64, false⟩ ⟨0x10000, 0x8000⟩ hlong 0xFFFF
  obtain ⟨hcompile, -⟩ := hpast (by rw [hreach]; decide)
  rw [scan_straddling, hreach] at hcompile
  exact ⟨hlong, hreach, hcompile⟩

/-- The operand past the top is an **overrun** if the image ends at the top, and a fault if not. -/
theorem compile_straddling_ne_take :
    compile ⟨64, false⟩ ⟨0x10000, 0x8000⟩ (straddling.take 0x10000) 0xFFFF =
        .error (.scan (.overrun 0xFFFF)) ∧
      compile ⟨64, false⟩ ⟨0x10000, 0x8000⟩ straddling 0xFFFF ≠
        compile ⟨64, false⟩ ⟨0x10000, 0x8000⟩ (straddling.take 0x10000) 0xFFFF := by
  have hcut : compile ⟨64, false⟩ ⟨0x10000, 0x8000⟩ (straddling.take 0x10000) 0xFFFF =
      .error (.scan (.overrun 0xFFFF)) := rfl
  have hpast : 0x10000 < reach ⟨64, false⟩ straddling 0xFFFF := by decide
  have hlong : compile ⟨64, false⟩ ⟨0x10000, 0x8000⟩ straddling 0xFFFF =
      .error (.fault (pastTop 0x10001)) := by
    rw [compile_of_lt_reach hpast, scan_straddling]
    rfl
  refine ⟨hcut, ?_⟩
  rw [hlong, hcut]
  intro h
  cases h

end Dynarec.Codegen
