import Dynarec.Proofs.Assembly.Labels
import Dynarec.Proofs.Codegen.Checked
import Dynarec.Proofs.Codegen.Compile

/-!
# Compilation never faults

Compiling yields a block or says why the guest code cannot be read, whatever the guest code, the
configuration and the addresses are (`compile_total`). Code is emitted while the block is being
read, so this is about every attempt: what has been emitted before an instruction turns out to be
unreadable is carried out without a fault as well.
-/

namespace Dynarec

/-- A range is what its start and its size make. -/
theorem Guest.Range.mk?_self (r : Range) : mk? r.start (r.stop - r.start.toNat) = .ok r := by
  have hsize : r.stop - r.start.toNat = r.size := Nat.add_sub_cancel_left ..
  rw [hsize, mk?_eq_ok r.size_pos r.fits]

namespace Codegen

open Assembly (Code CodeStream Commands.Finishes)
open Bridge (Layout)
open Guest (Ending Image Placed Range ScanError)

variable {config : Config} {image : Image} {start : Address} {listing : List Placed}
  {outcome : Except ScanError Ending} {ending : Ending}

/-! ### What is emitted -/

theorem tame_instructionsCode (layout : Layout) (before : HostFlags) (ps : List Placed) :
    (instructionsCode layout before ps).Tame (905 * ps.length) := by
  rw [← trackedCode_after]
  exact tame_trackedCode layout _ before ps

section

variable (hscan : scan config image start = ⟨listing, outcome⟩)

include hscan

/-- No more instructions are read than guest memory has bytes. -/
theorem length_listing_le (hsize : image.size ≤ 0x10000) : listing.length ≤ 0x10000 := by
  have hlength := image.length_listing_le (config.maxBlockInstructions - 1) start.toNat
  rw [← scan, hscan] at hlength
  exact Nat.le_trans hlength (by omega)

theorem isDecoded_of_mem_listing {p : Placed} (hp : p ∈ listing) :
    p.instruction.operation.IsDecoded := by
  refine image.isDecoded_of_mem_scan (config.maxBlockInstructions - 1) start.toNat ?_
  rwa [← scan, hscan]

/-- The **code of the instructions that are read** is carried out to the end: every label is bound
once, and every branch reaches its label. -/
theorem finishes_instructionsCode (layout : Layout) (hsize : image.size ≤ 0x10000) :
    Commands.Finishes ((instructionsCode layout .clobbered listing).commands 0)
      (instructionsCode layout .clobbered listing).bytes := by
  have hlength := length_listing_le hscan hsize
  obtain ⟨hfits, hbytes⟩ := (tame_instructionsCode layout .clobbered listing).layout
  exact CodeStream.finishes_commands hfits (by omega)

end

/-! ### Compiling -/

/-- Whether a compiled block is one **of** what has been read: its code is not empty and is what the
commands of the block leave in a stream, and its range, which is not empty either, ends at the top
of guest memory at the latest. -/
structure CompiledBlock.IsOf (block : CompiledBlock) (layout : Layout) (start : Address)
    (listing : List Placed) (ending : Ending) : Prop where
  finishes : Commands.Finishes ((blockCode layout listing ending).commands 0) block.code
  code_ne_nil : block.code ≠ []
  lt_cursor : start.toNat < ending.cursor
  cursor_le : ending.cursor ≤ 0x10000
  range : Range.mk? start (ending.cursor - start.toNat) = .ok block.range

/-- **Compiling a block that can be read** yields a block of it, whose range ends where reading has
ended. -/
theorem exists_block_of_scan (layout : Layout) (hsize : image.size ≤ 0x10000)
    (hscan : scan config image start = ⟨listing, .ok ending⟩) :
    ∃ block, compile config layout image start = .ok block ∧
      block.IsOf layout start listing ending := by
  have hreads := reads_of_scan_eq hscan
  obtain ⟨block, hassemble, htranslates⟩ := assembleBlock_of_reads layout hsize hreads
  have hcode : block.code = (blockCode layout listing ending).bytes := htranslates.code
  have hlength := length_listing_le hscan hsize
  obtain ⟨hfits, hbytes⟩ := (tame_blockCode layout listing ending).layout
  refine ⟨block, by rw [compile, hscan]; exact hassemble, ?_⟩
  obtain ⟨p, ps, rfl⟩ := List.exists_cons_of_ne_nil hreads.ne_nil
  exact {
    finishes := by
      rw [hcode]
      exact CodeStream.finishes_commands hfits (by omega)
    code_ne_nil := by
      rw [hcode]
      exact List.ne_nil_of_length_pos (length_blockCode ending)
    lt_cursor := hreads.cursor_lt.1
    cursor_le := Nat.le_trans hreads.cursor_lt.2 hsize
    range := by
      rw [← htranslates.start, ← htranslates.stop]
      exact block.range.mk?_self }

/-- **Compilation never faults.** Whatever bytes are compiled as code, from whatever address on,
under whatever configuration and for whatever layout:

* No operand comes up that has no code, and the code of the instructions that are read, whether or
  not reading fails after them, is carried out without a fault.
* The outcome is a block, or it says that an opcode is unknown, that an instruction cannot be
  compiled, or that an instruction runs past the end of the image. -/
theorem compile_total (config : Config) (layout : Layout) {image : Image}
    (hsize : image.size ≤ 0x10000) (start : Address) :
    ∃ listing outcome, scan config image start = ⟨listing, outcome⟩ ∧
      instructionsCode? layout .clobbered listing =
        some (instructionsCode layout .clobbered listing) ∧
      (∃ code,
        Commands.Finishes ((instructionsCode layout .clobbered listing).commands 0) code) ∧
      ((∃ ending block, outcome = .ok ending ∧ compile config layout image start = .ok block ∧
          block.IsOf layout start listing ending) ∨
        (∃ opcode, compile config layout image start = .error (.scan (.unknownOpcode opcode))) ∨
        (∃ address operation,
          compile config layout image start = .error (.scan (.unhandled address operation))) ∨
        ∃ address, compile config layout image start = .error (.scan (.overrun address))) := by
  rcases hscan : scan config image start with ⟨listing, outcome⟩
  refine ⟨listing, outcome, rfl,
    instructionsCode?_eq layout (fun p hp => isDecoded_of_mem_listing hscan hp) _,
    ⟨_, finishes_instructionsCode hscan layout hsize⟩, ?_⟩
  cases outcome with
  | ok ending =>
    obtain ⟨block, hblock, hof⟩ := exists_block_of_scan layout hsize hscan
    exact .inl ⟨ending, block, rfl, hblock, hof⟩
  | error e =>
    have herror : compile config layout image start = .error (.scan e) := by rw [compile, hscan]
    cases e with
    | unknownOpcode opcode => exact .inr (.inl ⟨opcode, herror⟩)
    | unhandled address operation => exact .inr (.inr (.inl ⟨address, operation, herror⟩))
    | overrun address => exact .inr (.inr (.inr ⟨address, herror⟩))

/-- A loop that counts in memory: `INC (HL)`, a conditional jump back, and `HALT`. -/
def countingLoop : Image := .ofList [0x34, 0x20, 0xFD, 0x76]

theorem compile_total_countingLoop :
    countingLoop.size ≤ 0x10000 ∧ ∃ listing ending block,
      compile ⟨0xFFFFFFFFFFFFFFFF, false⟩ ⟨0x10000, 0x8000⟩ countingLoop 0 = .ok block ∧
      listing.length = 3 ∧ (blockCode ⟨0x10000, 0x8000⟩ listing ending).labels = 5 ∧
      block.IsOf ⟨0x10000, 0x8000⟩ 0 listing ending := by
  have hsize : countingLoop.size ≤ 0x10000 := by decide
  have hscan : scan ⟨0xFFFFFFFFFFFFFFFF, false⟩ countingLoop 0 =
      ⟨[⟨0, .increment .indirectHl, 1⟩, ⟨1, .jumpRelative (some .notZero) 0xFD, 2⟩,
        ⟨3, .halt, 1⟩], .ok ⟨4, false⟩⟩ := by rfl
  obtain ⟨listing, outcome, hread, -, -, hcompile⟩ :=
    compile_total ⟨0xFFFFFFFFFFFFFFFF, false⟩ ⟨0x10000, 0x8000⟩ hsize 0
  obtain ⟨rfl, rfl⟩ := Guest.Scan.mk.inj (hread.symm.trans hscan)
  obtain ⟨block, hblock, -⟩ := exists_block_of_scan ⟨0x10000, 0x8000⟩ hsize hscan
  rw [hblock] at hcompile
  rcases hcompile with ⟨ending, _, hok, heq, hof⟩ | ⟨_, h⟩ | ⟨_, _, h⟩ | ⟨_, h⟩
  · cases hok
    cases heq
    exact ⟨hsize, _, _, _, hblock, rfl, rfl, hof⟩
  all_goals cases h

/-- An instruction that cannot be compiled is reported, whatever has been emitted before it. -/
example : compile ⟨64, false⟩ ⟨0x10000, 0x8000⟩ (.ofList [0x34, 0x27]) 0 =
    .error (.scan (.unhandled 1 .daa)) := rfl

end Codegen

end Dynarec
