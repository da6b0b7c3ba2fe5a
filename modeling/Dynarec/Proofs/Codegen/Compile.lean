import Dynarec.Proofs.Codegen.Block
import Dynarec.Proofs.Codegen.Reach
import Dynarec.Proofs.Guest.Extent

/-!
# Compiled blocks

Once a block has been read, compiling it succeeds: its code can be laid out, its guest range fits
guest memory, and its code is not empty (`compile_of_scan`). The outcome **translates** the block:
its machine code is the bytes of the block's host code.
-/

namespace Dynarec.Codegen

open Assembly (Code CodeBlock CodeStream)
open Bridge (Layout)
open Guest (Ending Image Placed Range)

variable {layout : Layout}

/-! ### Laying out blocks -/

/-- The code of instructions one after another is tame, with 905 bytes for each of them. -/
theorem tame_trackedCode (layout : Layout) (track : Tracking) (before : HostFlags)
    (ps : List Placed) : (trackedCode layout track before ps).Tame (905 * ps.length) := by
  induction ps generalizing before with
  | nil => exact ⟨rfl, rfl, Nat.zero_le _⟩
  | cons p ps ih =>
    have hrest := ih (track before p.instruction.operation)
    exact ((tame_operationCode layout before p).append hrest).mono (by
      rw [List.length_cons]
      omega)

/-- The code of instructions one after another can be laid out. -/
theorem fits_trackedCode (layout : Layout) (track : Tracking) (before : HostFlags)
    (ps : List Placed) : (trackedCode layout track before ps).Fits :=
  (tame_trackedCode layout track before ps).layout.1

/-- The exit of a block through which control falls is tame. -/
theorem tame_fallThroughCode (ending : Ending) : (fallThroughCode ending).Tame 45 := by
  rw [fallThroughCode]
  split <;> exact ⟨rfl, rfl, of_decide_eq_true rfl⟩

/-- **Blocks** have tame code, of a length that is bounded by the number of their instructions. -/
theorem tame_trackedBlock (layout : Layout) (track : Tracking) (listing : List Placed)
    (ending : Ending) :
    (trackedBlock layout track listing ending).Tame (905 * listing.length + 45) :=
  (tame_trackedCode layout track .clobbered listing).append (tame_fallThroughCode ending)

/-- The code of a block can be laid out, whatever the tracking of host flags. -/
theorem fits_trackedBlock (layout : Layout) (track : Tracking) (listing : List Placed)
    (ending : Ending) : (trackedBlock layout track listing ending).Fits :=
  (tame_trackedBlock layout track listing ending).layout.1

/-- The code that the compiler emits for a block is tame. -/
theorem tame_blockCode (layout : Layout) (listing : List Placed) (ending : Ending) :
    (blockCode layout listing ending).Tame (905 * listing.length + 45) := by
  rw [← trackedBlock_after]
  exact tame_trackedBlock layout _ listing ending

/-- A code stream that starts **empty** ends with the bytes of the code, and no patch is pending. -/
theorem extend_empty {code : Code} (h : code.Fits) :
    ∃ stream, CodeStream.empty.extend code = .ok stream ∧ stream.data.toList = code.bytes ∧
      stream.patches = [] := by
  obtain ⟨stream, hrun, hextends⟩ :=
    CodeStream.run_commands h (s := .empty) (fun p hp => by cases hp)
  exact ⟨stream, hrun, by rw [hextends.data]; rfl, hextends.patches⟩

/-! ### Code that is not empty -/

/-- Counting cycles takes an instruction, unless there are none to count. -/
theorem length_addCycles {n : Nat} (hn : n ≠ 0) :
    0 < (Assembly.straightBytes (addCycles n)).length := by
  have hplain := (tame_addCycles n).plain
  rw [addCycles, if_neg hn] at hplain ⊢
  have hlea := Host.Instruction.isPlain_of_check (List.all_eq_true.mp hplain _ List.mem_cons_self)
  exact Nat.lt_of_lt_of_le (Host.Instruction.length_pos hlea.encodable)
    (by simp [Host.Instruction.length])

/-- Every instruction takes **cycles**: the table has no zero among its base cycles. -/
theorem cycles_ne_zero (p : Placed) : p.instruction.cycles.base ≠ 0 := by
  rw [Guest.Instruction.cycles]
  cases p.instruction.operation with
  | jump condition | jumpRelative condition | call condition | ret condition =>
    cases condition <;> simp [Guest.Operation.cycles]
  | _ => simp [Guest.Operation.cycles]

/-- Every instruction has code that counts its cycles. -/
theorem addCycles_ne_nil (p : Placed) : addCycles p.instruction.cycles.base ≠ [] := by
  rw [addCycles, if_neg (cycles_ne_zero p)]
  exact List.cons_ne_nil _ _

/-- The code of an instruction is not empty, even if the instruction does nothing but take time. -/
theorem length_operationCode (layout : Layout) (before : HostFlags) (p : Placed) :
    0 < (operationCode layout before p).bytes.length := by
  have haddCycles := length_addCycles (cycles_ne_zero p)
  have hbytes : (operationCode layout before p).bytes =
      Assembly.straightBytes (addCycles p.instruction.cycles.base) ++
        (operationBody layout before p.next p.instruction.operation).bytes := rfl
  rw [hbytes, List.length_append]
  omega

/-- The code of a block with an instruction is not empty. -/
theorem length_blockCode {p : Placed} {ps : List Placed} (ending : Ending) :
    0 < (blockCode layout (p :: ps) ending).bytes.length := by
  have hfirst := length_operationCode layout .clobbered p
  rw [blockCode, instructionsCode]
  simp only [Code.bytes_append, List.length_append]
  omega

/-! ### Compiling -/

/-- Whether a compiled block **translates** the block from a guest address on. -/
structure Translates (layout : Layout) (start : Address) (listing : List Placed) (ending : Ending)
    (block : CompiledBlock) : Prop where
  code : block.program.code = (blockCode layout listing ending).bytes
  start : block.range.start = start
  stop : block.range.stop = ending.cursor
  count : block.instructionCount = listing.length

/-- Assembling a block puts its **range** and its bytes together. It fails at a range that ends
beyond the address space, and for want of bytes. -/
theorem assembleBlock_eq (layout : Layout) (start : Address) (listing : List Placed)
    (ending : Ending) :
    assembleBlock layout start listing ending =
      match Range.mk? start (ending.cursor - start.toNat) with
      | .error f => .error (.fault f)
      | .ok range =>
        match CompiledBlock.ofCode? range (blockCode layout listing ending).bytes
          listing.length with
        | none => .error .emptyBlock
        | some block => .ok block := by
  -- nothing can fail before the range is formed
  obtain ⟨stream, hstream, hdata, hpatches⟩ :=
    extend_empty (tame_blockCode layout listing ending).layout.1
  have hextend : (CodeBlock.openAt start).extend (blockCode layout listing ending) =
      .ok ⟨start, none, stream⟩ := by
    rw [CodeBlock.extend, CodeBlock.openAt, hstream]
    rfl
  have hfinish : stream.finish = .ok stream.data := by
    rw [CodeStream.finish, hpatches]
    rfl
  have hfinished : (do
      let block ← (CodeBlock.openAt start).extend (blockCode layout listing ending)
      (block.close (ending.cursor - start.toNat)).finish) =
        (Range.mk? start (ending.cursor - start.toNat)).map fun range => (range, stream.data) := by
    rw [hextend]
    change (CodeBlock.mk start (some (ending.cursor - start.toNat)) stream).finish = _
    rw [CodeBlock.finish]
    simp only [hfinish]
    cases Range.mk? start (ending.cursor - start.toNat) <;> rfl
  rw [← hdata]
  unfold assembleBlock
  rw [hfinished]
  cases Range.mk? start (ending.cursor - start.toNat) <;> rfl

/-- A compiled block is made of any bytes, if there are some. -/
theorem ofCode?_eq {code : List Byte} (hcode : code ≠ []) (range : Range) (count : Nat) :
    CompiledBlock.ofCode? range code count = some ⟨range, count, .ofCode code⟩ := by
  rw [CompiledBlock.ofCode?, if_neg (by simpa using hcode)]

/-- **Assembling** a block that is not empty can fail only at its range. -/
theorem assembleBlock_of_ne_nil (layout : Layout) (start : Address) {listing : List Placed}
    (hlisting : listing ≠ []) (ending : Ending) :
    assembleBlock layout start listing ending =
      match Range.mk? start (ending.cursor - start.toNat) with
      | .error f => .error (.fault f)
      | .ok range =>
        .ok ⟨range, listing.length, .ofCode (blockCode layout listing ending).bytes⟩ := by
  have hcode : (blockCode layout listing ending).bytes ≠ [] := by
    obtain ⟨p, ps, rfl⟩ := List.exists_cons_of_ne_nil hlisting
    exact List.ne_nil_of_length_pos (length_blockCode ending)
  simp only [assembleBlock_eq, ofCode?_eq hcode]

/-- **Assembling** a block that has been read succeeds, if the image fits the address space: then
the range does too. -/
theorem assembleBlock_of_reads (layout : Layout) {image : Image} (hsize : image.size ≤ 0x10000)
    {start : Address}
    {listing : List Placed} {ending : Ending} (h : image.Reads start.toNat listing ending) :
    ∃ block, assembleBlock layout start listing ending = .ok block ∧
      Translates layout start listing ending block := by
  obtain ⟨hlt, hle⟩ := h.cursor_lt
  have hpos : 0 < ending.cursor - start.toNat := by omega
  have hfits : start.toNat + (ending.cursor - start.toNat) ≤ 0x10000 := by omega
  refine ⟨⟨⟨start, _, hpos, hfits⟩, listing.length,
    .ofCode (blockCode layout listing ending).bytes⟩, ?_, rfl, rfl, ?_, rfl⟩
  · rw [assembleBlock_of_ne_nil layout start h.ne_nil, Range.mk?_eq_ok hpos hfits]
  · change start.toNat + (ending.cursor - start.toNat) = ending.cursor
    omega

/-- **Compiling** succeeds if the block can be read, and yields a translation of what was read. -/
theorem compile_of_scan (layout : Layout) {config : Config} {image : Image}
    (hsize : image.size ≤ 0x10000)
    {start : Address} {ending : Ending} (h : (scan config image start).outcome = .ok ending) :
    ∃ block, compile config layout image start = .ok block ∧
      Translates layout start (scan config image start).listing ending block := by
  obtain ⟨block, hblock, htranslates⟩ := assembleBlock_of_reads layout hsize
    (Guest.Image.reads_of_scan h)
  refine ⟨block, ?_, htranslates⟩
  rw [compile, h]
  exact hblock

/-- A scan that succeeds has read a block. -/
theorem reads_of_scan_eq {config : Config} {image : Image} {start : Address} {listing : List Placed}
    {ending : Ending} (h : scan config image start = ⟨listing, .ok ending⟩) :
    image.Reads start.toNat listing ending := by
  have hlisting : (scan config image start).listing = listing := by rw [h]
  have houtcome : (scan config image start).outcome = .ok ending := by rw [h]
  exact hlisting ▸ Guest.Image.reads_of_scan houtcome

/-- A **compiled block** has been read, and its machine code is that of the block. -/
theorem code_of_compile {config : Config} {image : Image} {start : Address} {block : CompiledBlock}
    (h : compile config layout image start = .ok block) :
    ∃ listing ending, scan config image start = ⟨listing, .ok ending⟩ ∧
      block.program.code = (blockCode layout listing ending).bytes := by
  rcases hscan : scan config image start with ⟨listing, e | ending⟩
  · rw [compile, hscan] at h
    cases h
  refine ⟨listing, ending, rfl, ?_⟩
  have hassemble : assembleBlock layout start listing ending = .ok block := by
    rw [compile, hscan] at h
    exact h
  rw [assembleBlock_eq] at hassemble
  split at hassemble
  · cases hassemble
  · split at hassemble
    · cases hassemble
    · next hofCode =>
      cases hassemble
      rw [CompiledBlock.ofCode?] at hofCode
      split at hofCode
      · cases hofCode
      · cases hofCode
        rfl

/-- A compiled block has been read, and its machine code is that of the block under the tracking of
the compiler. -/
theorem reads_of_compile {config : Config} {image : Image} {start : Address} {block : CompiledBlock}
    (h : compile config layout image start = .ok block) :
    ∃ listing ending, scan config image start = ⟨listing, .ok ending⟩ ∧
      image.Reads start.toNat listing ending ∧
      block.program.code = (trackedBlock layout HostFlags.after listing ending).bytes := by
  obtain ⟨listing, ending, hscan, hcode⟩ := code_of_compile h
  rw [← trackedBlock_after] at hcode
  exact ⟨listing, ending, hscan, reads_of_scan_eq hscan, hcode⟩

/-- **Compiling** a block depends on the bytes of its own range only, and on the size of the
image. -/
theorem compile_congr {config : Config} {image image' : Image} (himage : image.size ≤ 0x10000)
    (hsize : image'.size = image.size) {start : Address} {block : CompiledBlock}
    (h : compile config layout image start = .ok block)
    (hbytes : ∀ k, block.range.start.toNat ≤ k → k < block.range.stop →
      image'.byte k = image.byte k) :
    compile config layout image' start = .ok block := by
  obtain ⟨listing, ending, hscan, -⟩ := code_of_compile h
  have houtcome : (scan config image start).outcome = .ok ending := by rw [hscan]
  obtain ⟨block', hblock, htranslates⟩ := compile_of_scan layout himage houtcome
  obtain rfl : block' = block := Except.ok.inj (hblock.symm.trans h)
  rw [htranslates.start, htranslates.stop] at hbytes
  have hsame : scan config image' start = scan config image start :=
    Image.scan_congr hsize houtcome hbytes
  rw [compile, hsame]
  exact h

/-- Compiling fails if the block cannot be read, with the same error. -/
theorem compile_of_scan_error {config : Config} {image : Image} {start : Address}
    {e : Guest.ScanError} (h : (scan config image start).outcome = .error e) :
    compile config layout image start = .error (.scan e) := by
  rw [compile, h]

end Dynarec.Codegen
