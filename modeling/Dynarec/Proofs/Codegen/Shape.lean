import Dynarec.Proofs.Codegen.Compile
import Dynarec.Proofs.Guest.Tables

/-!
# The shape of a block

Where a compiled block stops and why compiling fails, said by the opcode tables alone
(`compile_shape`). Reading goes from one instruction to the next until one of them ends the block,
is the last one allowed or ends where the image ends (`Image.StopsAt`), or until one cannot be read
or compiled (`Image.FailsAt`), whichever comes first.
-/

namespace Dynarec

open Bridge (Layout)
open Guest (Ending FetchError Image Instruction Operation Placed ScanError)

namespace Guest.Image

variable {image : Image}

/-- Whether a block **stops after** an instruction, of which it is the one with the given number:
the instruction ends the block, is the last one allowed, or ends where the image ends. -/
def StopsAt (image : Image) (limit number : Nat) (p : Placed) : Prop :=
  p.instruction.operation.endsBlock = true ∨ number = limit ∨ p.stop = image.size

/-- Why the instruction at an index **cannot be read or compiled**. -/
inductive FailsAt (image : Image) (cursor : Nat) : ScanError → Prop
  /-- There is no such opcode. -/
  | unknownOpcode : cursor < image.size → image.byte cursor ∈ Opcode.illegal →
      FailsAt image cursor (.unknownOpcode (image.byte cursor))
  /-- The bytes run out. -/
  | overrun : image.entry cursor = .error .overrun →
      FailsAt image cursor (.overrun (BitVec.ofNat 16 cursor))
  /-- Decimal adjustment is not handled. -/
  | unhandled {instruction : Instruction} : image.entry cursor = .ok instruction →
      instruction.operation = .daa →
        FailsAt image cursor (.unhandled (BitVec.ofNat 16 cursor) .daa)

/-! ### Instructions that fail -/

/-- The opcodes without an operand size are those that do not exist. -/
theorem operandSize_eq_none_iff (opcode : Byte) :
    Opcode.operandSize opcode = none ↔ opcode ∈ Opcode.illegal := by
  rw [Opcode.operandSize]
  split
  · next h => exact iff_of_true rfl h
  · next h =>
    refine iff_of_false ?_ h
    split
    · exact Option.some_ne_none 2
    · split
      · exact Option.some_ne_none 1
      · exact Option.some_ne_none 0

/-- An opcode is **unknown** if it is one of those that do not exist. -/
theorem failsAt_of_unknownOpcode {cursor : Nat} {opcode : Byte}
    (h : image.entry cursor = .error (.unknownOpcode opcode)) :
    image.FailsAt cursor (.unknownOpcode opcode) := by
  rw [entry] at h
  split at h
  · cases h
  next hcursor =>
  split at h
  · split at h <;> cases h
  split at h
  · next hsize =>
    cases h
    exact .unknownOpcode (Nat.lt_of_not_le hcursor) ((operandSize_eq_none_iff _).mp hsize)
  · split at h <;> cases h

/-- An instruction that cannot be fetched fails, as the error says. -/
theorem failsAt_of_fetch_error {cursor : Nat} {e : FetchError} (h : image.fetch cursor = .error e) :
    image.FailsAt cursor (e.toScanError (BitVec.ofNat 16 cursor)) := by
  have hentry := entry_of_fetch_error h
  cases e with
  | unknownOpcode opcode => exact failsAt_of_unknownOpcode hentry
  | overrun => exact .overrun hentry

/-- An instruction that cannot be compiled fails. -/
theorem failsAt_of_not_isHandled {cursor next : Nat} {instruction : Instruction}
    (h : image.fetch cursor = .ok (instruction, next))
    (hhandled : instruction.operation.isHandled = false) :
    image.FailsAt cursor (.unhandled (BitVec.ofNat 16 cursor) instruction.operation) := by
  have hdaa : instruction.operation = .daa := by
    simpa [Operation.isHandled] using hhandled
  rw [hdaa]
  exact .unhandled (entry_of_fetch h).1 hdaa

theorem ne_daa_of_isHandled {operation : Operation} (h : operation.isHandled = true) :
    operation ≠ .daa := of_decide_eq_true h

/-! ### Numbers -/

/-- The same instruction, counted from the one before the first. -/
theorem stopsAt_succ (limit number : Nat) (p : Placed) :
    image.StopsAt (limit + 1) (number + 1) p ↔ image.StopsAt limit number p := by
  simp only [StopsAt, Nat.add_right_cancel_iff]

/-- A single instruction after which the block stops. -/
theorem stopsAt_single {limit : Nat} {p : Placed} (h : image.StopsAt limit 1 p) (n : Nat)
    (q : Placed) (hq : [p][n]? = some q) : image.StopsAt limit (n + 1) q ↔ n + 1 = [p].length := by
  cases n with
  | zero =>
    cases hq
    exact iff_of_true h rfl
  | succ n => cases hq

/-! ### Reading -/

variable (hsize : image.size ≤ 0x10000)

include hsize

theorem stop_of_fetch {cursor next : Nat} {instruction : Instruction}
    (hfetch : image.fetch cursor = .ok (instruction, next)) :
    (Placed.mk (BitVec.ofNat 16 cursor) instruction).stop = next := by
  obtain ⟨-, hlt, hle⟩ := fetch_ok hfetch
  obtain ⟨-, hnext⟩ := entry_of_fetch hfetch
  rw [Placed.stop_ofNat (by omega), hnext]

/-- A block **does not stop** after a first instruction that control falls through, if more than one
is allowed and the image goes on. -/
theorem not_stopsAt_of_fetch {cursor next : Nat} {instruction : Instruction}
    (hfetch : image.fetch cursor = .ok (instruction, next))
    (hends : instruction.operation.endsBlock = false) (hnext : next < image.size) (limit : Nat) :
    ¬ image.StopsAt (limit + 2) 1 ⟨BitVec.ofNat 16 cursor, instruction⟩ := by
  rintro (h | h | h)
  · rw [hends] at h
    cases h
  · omega
  · rw [stop_of_fetch hsize hfetch] at h
    omega

/-- What is read **stops** after its last instruction and not before. The induction is on the number
of instructions that are allowed. -/
theorem stopsAt_iff_of_scan {budget cursor : Nat} {ending : Ending}
    (h : (image.scan budget cursor).outcome = .ok ending) (n : Nat) (p : Placed)
    (hp : (image.scan budget cursor).listing[n]? = some p) :
    image.StopsAt (budget + 1) (n + 1) p ↔
      n + 1 = (image.scan budget cursor).listing.length := by
  induction budget using Nat.strongRecOn generalizing cursor n with
  | ind budget ih =>
    rcases image.scan_cases budget cursor with ⟨e, -, hscan⟩ | ⟨instruction, next, hfetch,
      ⟨-, hscan⟩ | ⟨-, ⟨hlast, hscan⟩ | ⟨fewer, rfl, hends, hnext, hscan⟩⟩⟩
    · rw [hscan] at h
      cases h
    · rw [hscan] at h
      cases h
    · rw [hscan] at hp ⊢
      refine stopsAt_single ?_ n p hp
      rcases hlast with hends | rfl | hle
      · exact .inl hends
      · exact .inr (.inl rfl)
      · exact .inr (.inr ((stop_of_fetch hsize hfetch).trans
          (Nat.le_antisymm (fetch_ok hfetch).2.2 hle)))
    · rw [hscan] at h hp ⊢
      -- the rest of the block is not empty and counts one instruction less
      have hrest := List.length_pos_iff.mpr (reads_of_scan h).ne_nil
      cases n with
      | zero =>
        cases hp
        refine iff_of_false (not_stopsAt_of_fetch hsize hfetch hends hnext fewer) ?_
        rw [Scan.after, List.length_cons]
        omega
      | succ n =>
        rw [stopsAt_succ, ih fewer (Nat.lt_succ_self fewer) h n hp, Scan.after, List.length_cons,
          Nat.add_right_cancel_iff]

/-- What fails is the **first instruction that does**, in address order, and nothing has stopped the
block before it. What was read before it has been decoded. -/
theorem failsAt_of_scan {budget cursor : Nat} {e : ScanError}
    (h : (image.scan budget cursor).outcome = .error e) :
    ∃ listing stop, image.Decodes cursor listing stop ∧
      (∀ p ∈ listing, p.instruction.operation ≠ .daa) ∧ image.FailsAt stop e ∧
      ∀ n p, listing[n]? = some p → ¬ image.StopsAt (budget + 1) (n + 1) p := by
  have hnone (limit n : Nat) (p : Placed) (hp : ([] : List Placed)[n]? = some p) :
      ¬ image.StopsAt limit (n + 1) p :=
    absurd (List.mem_of_getElem? hp) List.not_mem_nil
  induction budget using Nat.strongRecOn generalizing cursor with
  | ind budget ih =>
    rcases image.scan_cases budget cursor with ⟨e, hfetch, hscan⟩ | ⟨instruction, next, hfetch,
      ⟨hhandled, hscan⟩ | ⟨hhandled, ⟨-, hscan⟩ | ⟨fewer, rfl, hends, hnext, hscan⟩⟩⟩
    · rw [hscan] at h
      cases h
      exact ⟨[], cursor, .nil cursor, List.forall_mem_nil _, failsAt_of_fetch_error hfetch, hnone _⟩
    · rw [hscan] at h
      cases h
      exact ⟨[], cursor, .nil cursor, List.forall_mem_nil _,
        failsAt_of_not_isHandled hfetch hhandled, hnone _⟩
    · rw [hscan] at h
      cases h
    · rw [hscan] at h
      -- the first instruction is handled and goes on, so that what fails comes after it
      obtain ⟨listing, stop, hdecodes, hdaa, hfails, hstops⟩ :=
        ih fewer (Nat.lt_succ_self fewer) h
      have hfirst := not_stopsAt_of_fetch hsize hfetch hends hnext fewer
      obtain ⟨hentry, rfl⟩ := entry_of_fetch hfetch
      refine ⟨_ :: listing, stop, .cons hentry hdecodes, ?_, hfails, ?_⟩
      · exact List.forall_mem_cons.mpr ⟨ne_daa_of_isHandled hhandled, hdaa⟩
      · rintro (_ | n) p hp
        · cases hp
          exact hfirst
        · rw [stopsAt_succ]
          exact hstops n p hp

end Guest.Image

namespace Codegen

/-- The number of instructions that a block may have. It holds at least one. -/
def Config.limit (config : Config) : Nat := max 1 config.maxBlockInstructions

/-- **The shape of a block.** Let the instructions from a guest address on be decoded one after
another by the opcode tables, from an image that fits guest memory. Compiling goes through them up
to the first one that ends the block, is the last one allowed or ends where the image ends. If none
before that or that one itself fails, compiling succeeds, and the block reports the number of these
instructions and the range from the guest address to the end of the last one. Otherwise the error is
that of the first one in address order that fails: its opcode does not exist, its bytes run out, or
it is a decimal adjustment. In any case no more instructions are decoded than there are bytes from
the guest address to the end of the image. -/
theorem compile_shape (config : Config) (layout : Layout) {image : Image}
    (hsize : image.size ≤ 0x10000) (start : Address) :
    (scan config image start).listing.length ≤ image.size - start.toNat ∧
    ∃ listing stop, image.Decodes start.toNat listing stop ∧
      (∀ p ∈ listing, p.instruction.operation ≠ .daa) ∧
      ((∃ block, compile config layout image start = .ok block ∧ listing ≠ [] ∧
          (∀ n p, listing[n]? = some p →
            (image.StopsAt config.limit (n + 1) p ↔ n + 1 = listing.length)) ∧
          block.instructionCount = listing.length ∧
          block.range.start = start ∧ block.range.stop = stop) ∨
        ∃ e, compile config layout image start = .error (.scan e) ∧ image.FailsAt stop e ∧
          ∀ n p, listing[n]? = some p → ¬ image.StopsAt config.limit (n + 1) p) := by
  -- the budget counts the instructions after the first
  have hlimit : config.maxBlockInstructions - 1 + 1 = config.limit := by
    rw [Config.limit]
    omega
  refine ⟨image.length_listing_le _ _, ?_⟩
  cases houtcome : (scan config image start).outcome with
  | ok ending =>
    obtain ⟨block, hblock, htranslates⟩ := compile_of_scan layout hsize houtcome
    have hreads := Image.reads_of_scan houtcome
    have hstops := Image.stopsAt_iff_of_scan hsize houtcome
    rw [hlimit] at hstops
    exact ⟨_, ending.cursor, hreads.decodes,
      fun p hp => Image.ne_daa_of_isHandled (hreads.isHandled p hp),
      .inl ⟨block, hblock, hreads.ne_nil, hstops, htranslates.count, htranslates.start,
        htranslates.stop⟩⟩
  | error e =>
    obtain ⟨listing, stop, hdecodes, hdaa, hfails, hstops⟩ :=
      Image.failsAt_of_scan hsize houtcome
    rw [hlimit] at hstops
    exact ⟨listing, stop, hdecodes, hdaa,
      .inr ⟨e, compile_of_scan_error houtcome, hfails, hstops⟩⟩

/-- A `NOP`, a load of a constant, and an opcode that does not exist. -/
def unreadable : Image := .ofList [0x00, 0x3E, 0x05, 0xD3]

/-- The first two instructions do not stop the block, and the third one fails. -/
theorem compile_shape_unreadable :
    unreadable.size ≤ 0x10000 ∧
      compile ⟨64, false⟩ ⟨0x10000, 0x8000⟩ unreadable 0 = .error (.scan (.unknownOpcode 0xD3)) ∧
      ∃ listing stop, unreadable.Decodes 0 listing stop ∧
        unreadable.FailsAt stop (.unknownOpcode 0xD3) ∧
        ∀ n p, listing[n]? = some p → ¬ unreadable.StopsAt 64 (n + 1) p := by
  have hsize : unreadable.size ≤ 0x10000 := by decide
  have hcompile : compile ⟨64, false⟩ ⟨0x10000, 0x8000⟩ unreadable 0 =
      .error (.scan (.unknownOpcode 0xD3)) := rfl
  obtain ⟨-, listing, stop, hdecodes, -, houtcome⟩ :=
    compile_shape ⟨64, false⟩ ⟨0x10000, 0x8000⟩ hsize 0
  rw [hcompile] at houtcome
  rcases houtcome with ⟨block, hok, -⟩ | ⟨e, herror, hfails, hstops⟩
  · cases hok
  · cases herror
    exact ⟨hsize, hcompile, listing, stop, hdecodes, hfails, hstops⟩

end Codegen

end Dynarec
