import Dynarec.Guest.Block

/-!
# What reading a block yields

`Image.Reads` says of a listing and an ending that they are a block of an image, instruction by
instruction; `reads_of_scan` ties it to `Image.scan`. Every instruction that is read, whatever the
outcome, is what an entry of the opcode tables decodes to (`isDecoded_of_mem_scan`). So it is
**well-formed**, its operands being ones that instructions name, and it never writes a constant.
-/

namespace Dynarec.Guest

/-! ### Operations that exist -/

/-- Whether an operand is one that instructions **name**: memory is not accessed at SP. -/
def Operand8.IsNamed (o : Operand8) : Prop := o ≠ .indirect .sp

/-- The shifts that **rotate** a byte. -/
def ShiftOp.isRotation : ShiftOp → Bool
  | .rlc | .rrc | .rl | .rr => true
  | _ => false

/-- What holds of every operation that **decoding** yields: its operands are ones that instructions
name, and A is only rotated. -/
def Operation.WellFormed : Operation → Prop
  | .load dst src => dst.IsNamed ∧ src.IsNamed
  | .alu _ o | .bit _ o => o.IsNamed
  | .increment o | .decrement o | .shift _ o | .reset _ o | .set _ o => o.IsNamed
  | .rotateAccumulator op => op.isRotation = true
  | _ => True

/-- The operand of a field of three bits exists, for each of its eight values. -/
theorem Operand8.isNamed_ofIndex (field : BitVec 3) : (ofIndex field).IsNamed := by
  rw [ofIndex]
  split <;> exact Operand8.noConfusion

/-- Memory at a register pair is an operand, except for SP, through which no instruction loads or
stores a byte. -/
theorem Operand8.isNamed_indirect {pair : Reg16} (h : pair ≠ .sp) : (indirect pair).IsNamed :=
  fun he => h (Operand8.indirect.inj he)

/-- **Decoding** yields operations that exist, for every opcode and every operand. There is one case
for each row of the opcode table. -/
theorem Opcode.wellFormed_decode (opcode : Byte) (operand : BitVec 16) :
    (decode opcode operand).WellFormed := by
  have hindex := Operand8.isNamed_ofIndex
  rw [decode]
  repeat' split
  all_goals
    first
    | exact trivial
    | exact rfl
    | exact hindex _
    | exact Operand8.noConfusion
    | exact ⟨hindex _, hindex _⟩
    | exact ⟨hindex _, Operand8.noConfusion⟩
    | exact ⟨Operand8.noConfusion, Operand8.noConfusion⟩
    | exact ⟨Operand8.noConfusion, Operand8.isNamed_indirect (by decide)⟩
    | exact ⟨Operand8.isNamed_indirect (by decide), Operand8.noConfusion⟩

/-- The opcodes after a prefix are operations that exist, too. -/
theorem Opcode.wellFormed_decodePrefixed (opcode : Byte) : (decodePrefixed opcode).WellFormed := by
  rw [decodePrefixed]
  split <;> exact Operand8.isNamed_ofIndex _

/-! ### Operands that are written -/

/-- Whether an operand is a **place**, which can be written. -/
def Operand8.IsPlace (o : Operand8) : Prop := ∀ v, o ≠ .immediate v

/-- Whether an operation only **writes places**. -/
def Operation.WritesPlaces : Operation → Prop
  | .load dst _ => dst.IsPlace
  | .increment o | .decrement o | .shift _ o | .reset _ o | .set _ o => o.IsPlace
  | _ => True

/-- The operand of a field of three bits can be written. -/
theorem Operand8.isPlace_ofIndex (field : BitVec 3) : (ofIndex field).IsPlace := by
  intro v
  rw [ofIndex]
  split <;> exact Operand8.noConfusion

/-- No opcode writes to a constant. -/
theorem Opcode.writesPlaces_decode (opcode : Byte) (operand : BitVec 16) :
    (decode opcode operand).WritesPlaces := by
  rw [decode]
  repeat' split
  all_goals
    first
    | exact trivial
    | exact Operand8.isPlace_ofIndex _
    | exact fun _ => Operand8.noConfusion

/-- No opcode after a prefix writes to a constant. -/
theorem Opcode.writesPlaces_decodePrefixed (opcode : Byte) :
    (decodePrefixed opcode).WritesPlaces := by
  rw [decodePrefixed]
  split
  · exact Operand8.isPlace_ofIndex _
  · trivial
  · exact Operand8.isPlace_ofIndex _
  · exact Operand8.isPlace_ofIndex _

/-! ### Decoding -/

/-- Whether an operation is what an **entry of the opcode tables** decodes to. -/
def Operation.IsDecoded (operation : Operation) : Prop :=
  (∃ opcode operand, operation = Opcode.decode opcode operand) ∨
    ∃ opcode, operation = Opcode.decodePrefixed opcode

/-- An operation that comes from an opcode exists. -/
theorem Operation.IsDecoded.wellFormed {operation : Operation} (h : operation.IsDecoded) :
    operation.WellFormed := by
  rcases h with ⟨opcode, operand, rfl⟩ | ⟨opcode, rfl⟩
  · exact Opcode.wellFormed_decode opcode operand
  · exact Opcode.wellFormed_decodePrefixed opcode

/-- An operation that comes from an opcode writes to a register or to memory. -/
theorem Operation.IsDecoded.writesPlaces {operation : Operation} (h : operation.IsDecoded) :
    operation.WritesPlaces := by
  rcases h with ⟨opcode, operand, rfl⟩ | ⟨opcode, rfl⟩
  · exact Opcode.writesPlaces_decode opcode operand
  · exact Opcode.writesPlaces_decodePrefixed opcode

/-- An instruction that the decoder completes comes from an opcode, in whichever state it was fed
its last byte. -/
theorem Decoder.isDecoded_feed {d d' : Decoder} {byte : Byte} {instruction : Instruction}
    (h : d.feed byte = (.complete instruction, d')) : instruction.operation.IsDecoded := by
  cases d with
  | boundary =>
    rw [feed] at h
    split at h
    · cases h
    · split at h
      · cases h
      · cases h
        exact .inl ⟨byte, 0, rfl⟩
      · cases h
  | prefixed =>
    cases h
    exact .inr ⟨byte, rfl⟩
  | operand opcode remaining value shift =>
    rw [feed] at h
    split at h
    · cases h
      exact .inl ⟨opcode, _, rfl⟩
    · cases h

/-! ### Fetching -/

namespace Image

variable {image : Image}

/-- A fetched instruction has been decoded, and as many bytes have been read for it as were left or
fewer. -/
theorem fetchFrom_ok {left : Nat} {d : Decoder} {cursor next : Nat} {instruction : Instruction}
    (h : image.fetchFrom left d cursor = .ok (instruction, next)) :
    instruction.operation.IsDecoded ∧ cursor < next ∧ next ≤ cursor + left := by
  induction left generalizing d cursor with
  | zero => cases h
  | succ left ih =>
    rw [fetchFrom] at h
    split at h
    · next hfeed =>
      cases h
      exact ⟨Decoder.isDecoded_feed hfeed, by omega, by omega⟩
    · cases h
    · obtain ⟨hdecoded, hlt, hle⟩ := ih h
      exact ⟨hdecoded, by omega, by omega⟩

/-- A fetched instruction has been decoded and lies in the image, in at least one byte. -/
theorem fetch_ok {cursor next : Nat} {instruction : Instruction}
    (h : image.fetch cursor = .ok (instruction, next)) :
    instruction.operation.IsDecoded ∧ cursor < next ∧ next ≤ image.size := by
  obtain ⟨hdecoded, hlt, hle⟩ := fetchFrom_ok h
  exact ⟨hdecoded, hlt, by omega⟩

/-! ### Blocks -/

/-- A listing and an ending that are a **block** of an image, read from a cursor on. -/
inductive Reads (image : Image) : Nat → List Placed → Ending → Prop
  /-- The last instruction ends the block. -/
  | ends {cursor next : Nat} {instruction : Instruction} :
      image.fetch cursor = .ok (instruction, next) → instruction.operation.isHandled = true →
        instruction.operation.endsBlock = true →
        Reads image cursor [⟨BitVec.ofNat 16 cursor, instruction⟩] ⟨next, false⟩
  /-- Control falls through the last instruction. -/
  | fallsThrough {cursor next : Nat} {instruction : Instruction} :
      image.fetch cursor = .ok (instruction, next) → instruction.operation.isHandled = true →
        instruction.operation.endsBlock = false →
        Reads image cursor [⟨BitVec.ofNat 16 cursor, instruction⟩] ⟨next, true⟩
  /-- The block goes on after its first instruction. -/
  | more {cursor next : Nat} {instruction : Instruction} {ps : List Placed} {ending : Ending} :
      image.fetch cursor = .ok (instruction, next) → instruction.operation.isHandled = true →
        instruction.operation.endsBlock = false → next < image.size → Reads image next ps ending →
        Reads image cursor (⟨BitVec.ofNat 16 cursor, instruction⟩ :: ps) ending

/-- Reading stops at an instruction that cannot be fetched, which is not listed. -/
theorem scan_of_error {cursor : Nat} {e : FetchError} (hfetch : image.fetch cursor = .error e)
    (budget : Nat) :
    image.scan budget cursor = ⟨[], .error (e.toScanError (BitVec.ofNat 16 cursor))⟩ := by
  rw [scan, hfetch]

/-- Reading stops at an instruction that cannot be compiled, which is listed. -/
theorem scan_of_not_isHandled {cursor next : Nat} {instruction : Instruction}
    (hfetch : image.fetch cursor = .ok (instruction, next))
    (hhandled : instruction.operation.isHandled = false) (budget : Nat) :
    image.scan budget cursor =
      ⟨[⟨BitVec.ofNat 16 cursor, instruction⟩],
        .error (.unhandled (BitVec.ofNat 16 cursor) instruction.operation)⟩ := by
  rw [scan, hfetch]
  simp only [hhandled, Bool.not_false, if_true]

section First

variable {cursor next : Nat} {instruction : Instruction}
  (hfetch : image.fetch cursor = .ok (instruction, next))
  (hhandled : instruction.operation.isHandled = true)

include hfetch hhandled

/-- The first instruction ends the block, and control does not fall through it. -/
theorem scan_ends (hends : instruction.operation.endsBlock = true) (budget : Nat) :
    image.scan budget cursor = ⟨[⟨BitVec.ofNat 16 cursor, instruction⟩], .ok ⟨next, false⟩⟩ := by
  rw [scan, hfetch]
  simp only [hhandled, hends, Bool.not_true, Bool.false_eq_true, if_false, if_true]

/-- The first instruction is the only one allowed, and control falls through the block. -/
theorem scan_zero (hends : instruction.operation.endsBlock = false) :
    image.scan 0 cursor = ⟨[⟨BitVec.ofNat 16 cursor, instruction⟩], .ok ⟨next, true⟩⟩ := by
  rw [scan, hfetch]
  simp only [hhandled, hends, Bool.not_true, Bool.false_eq_true, if_false]

/-- The block goes on with one instruction fewer to come, unless the image ends. -/
theorem scan_succ (hends : instruction.operation.endsBlock = false) (budget : Nat) :
    image.scan (budget + 1) cursor =
      if image.size ≤ next then ⟨[⟨BitVec.ofNat 16 cursor, instruction⟩], .ok ⟨next, true⟩⟩
      else .after ⟨BitVec.ofNat 16 cursor, instruction⟩ (image.scan budget next) := by
  rw [scan, hfetch]
  simp only [hhandled, hends, Bool.not_true, Bool.false_eq_true, if_false]

end First

/-- **What reading a block does first**: it fails at the first instruction, stops after it, or goes
on with what comes after it. -/
theorem scan_cases (image : Image) (budget cursor : Nat) :
    (∃ e, image.fetch cursor = .error e ∧
      image.scan budget cursor = ⟨[], .error (e.toScanError (BitVec.ofNat 16 cursor))⟩) ∨
    ∃ instruction next, image.fetch cursor = .ok (instruction, next) ∧
      ((instruction.operation.isHandled = false ∧
          image.scan budget cursor = ⟨[⟨BitVec.ofNat 16 cursor, instruction⟩],
            .error (.unhandled (BitVec.ofNat 16 cursor) instruction.operation)⟩) ∨
        instruction.operation.isHandled = true ∧
          (((instruction.operation.endsBlock = true ∨ budget = 0 ∨ image.size ≤ next) ∧
              image.scan budget cursor = ⟨[⟨BitVec.ofNat 16 cursor, instruction⟩],
                .ok ⟨next, !instruction.operation.endsBlock⟩⟩) ∨
            ∃ fewer, budget = fewer + 1 ∧ instruction.operation.endsBlock = false ∧
              next < image.size ∧ image.scan budget cursor =
                .after ⟨BitVec.ofNat 16 cursor, instruction⟩ (image.scan fewer next))) := by
  cases hfetch : image.fetch cursor with
  | error e => exact .inl ⟨e, rfl, scan_of_error hfetch budget⟩
  | ok fetched =>
    obtain ⟨instruction, next⟩ := fetched
    refine .inr ⟨instruction, next, rfl, ?_⟩
    cases hhandled : instruction.operation.isHandled with
    | false => exact .inl ⟨rfl, scan_of_not_isHandled hfetch hhandled budget⟩
    | true =>
      refine .inr ⟨rfl, ?_⟩
      cases hends : instruction.operation.endsBlock with
      | true => exact .inl ⟨.inl rfl, scan_ends hfetch hhandled hends budget⟩
      | false =>
        cases budget with
        | zero => exact .inl ⟨.inr (.inl rfl), scan_zero hfetch hhandled hends⟩
        | succ budget =>
          rw [scan_succ hfetch hhandled hends]
          by_cases hlast : image.size ≤ next
          · exact .inl ⟨.inr (.inr hlast), if_pos hlast⟩
          · exact .inr ⟨budget, rfl, rfl, Nat.lt_of_not_le hlast, if_neg hlast⟩

/-- A block that can be read **is its first instruction, or goes on** after it. What goes on can be
read as well. -/
theorem scan_cases_of_ok {budget cursor : Nat} {ending : Ending}
    (h : (image.scan budget cursor).outcome = .ok ending) :
    ∃ instruction next, image.fetch cursor = .ok (instruction, next) ∧
      instruction.operation.isHandled = true ∧
      (((instruction.operation.endsBlock = true ∨ budget = 0 ∨ image.size ≤ next) ∧
          ending = ⟨next, !instruction.operation.endsBlock⟩ ∧
          (image.scan budget cursor).listing = [⟨BitVec.ofNat 16 cursor, instruction⟩]) ∨
        ∃ fewer, budget = fewer + 1 ∧ instruction.operation.endsBlock = false ∧
          next < image.size ∧ (image.scan fewer next).outcome = .ok ending ∧
          (image.scan budget cursor).listing =
            ⟨BitVec.ofNat 16 cursor, instruction⟩ :: (image.scan fewer next).listing) := by
  rcases image.scan_cases budget cursor with ⟨e, -, hscan⟩ | ⟨instruction, next, hfetch,
    ⟨-, hscan⟩ | ⟨hhandled, ⟨hlast, hscan⟩ | ⟨fewer, rfl, hends, hnext, hscan⟩⟩⟩
  · rw [hscan] at h
    cases h
  · rw [hscan] at h
    cases h
  · rw [hscan] at h ⊢
    cases h
    exact ⟨instruction, next, hfetch, hhandled, .inl ⟨hlast, rfl, rfl⟩⟩
  · rw [hscan] at h ⊢
    exact ⟨instruction, next, hfetch, hhandled, .inr ⟨fewer, rfl, hends, hnext, h, rfl⟩⟩

/-- An instruction that can be compiled is a block, through which control falls unless it ends the
block. -/
theorem Reads.single {cursor next : Nat} {instruction : Instruction}
    (hfetch : image.fetch cursor = .ok (instruction, next))
    (hhandled : instruction.operation.isHandled = true) :
    image.Reads cursor [⟨BitVec.ofNat 16 cursor, instruction⟩]
      ⟨next, !instruction.operation.endsBlock⟩ := by
  cases hends : instruction.operation.endsBlock with
  | true => exact .ends hfetch hhandled hends
  | false => exact .fallsThrough hfetch hhandled hends

/-- **Reading a block** yields one, however many instructions are allowed. The induction is on their
number. -/
theorem reads_of_scan {budget cursor : Nat} {ending : Ending}
    (h : (image.scan budget cursor).outcome = .ok ending) :
    image.Reads cursor (image.scan budget cursor).listing ending := by
  induction budget using Nat.strongRecOn generalizing cursor with
  | ind budget ih =>
    obtain ⟨instruction, next, hfetch, hhandled, ⟨-, rfl, hlisting⟩ |
      ⟨fewer, rfl, hends, hnext, hrest, hlisting⟩⟩ := scan_cases_of_ok h
    · rw [hlisting]
      exact .single hfetch hhandled
    · rw [hlisting]
      exact .more hfetch hhandled hends hnext (ih fewer (Nat.lt_succ_self fewer) hrest)

namespace Reads

variable {cursor : Nat} {listing : List Placed} {ending : Ending}

/-- A block lies in its image and is not empty: it ends behind the place where it starts. -/
theorem cursor_lt (h : image.Reads cursor listing ending) :
    cursor < ending.cursor ∧ ending.cursor ≤ image.size := by
  induction h with
  | ends hfetch | fallsThrough hfetch => exact (fetch_ok hfetch).2
  | more hfetch _ _ _ _ ih => exact ⟨Nat.lt_trans (fetch_ok hfetch).2.1 ih.1, ih.2⟩

/-- A block has an instruction. -/
theorem ne_nil (h : image.Reads cursor listing ending) : listing ≠ [] := by
  cases h <;> exact List.cons_ne_nil _ _

/-- The operations of a block exist. -/
theorem wellFormed (h : image.Reads cursor listing ending) :
    ∀ p ∈ listing, p.instruction.operation.WellFormed := by
  induction h with
  | ends hfetch | fallsThrough hfetch =>
    intro p hp
    rw [List.mem_singleton.mp hp]
    exact (fetch_ok hfetch).1.wellFormed
  | more hfetch _ _ _ _ ih =>
    intro p hp
    rcases List.mem_cons.mp hp with rfl | hp
    · exact (fetch_ok hfetch).1.wellFormed
    · exact ih p hp

/-- Control falls through a block, or its last instruction ends it. -/
theorem endsBlock (h : image.Reads cursor listing ending) (hending : ending.fallsThrough = false) :
    ∃ ps p, listing = ps ++ [p] ∧ p.instruction.operation.endsBlock = true := by
  induction h with
  | ends _ _ hends => exact ⟨[], _, rfl, hends⟩
  | fallsThrough => cases hending
  | more _ _ _ _ _ ih =>
    obtain ⟨ps, p, rfl, hends⟩ := ih hending
    exact ⟨_ :: ps, p, rfl, hends⟩

end Reads

/-! ### Whatever the outcome -/

/-- **Induction along what is read**: nothing, if the first instruction cannot be fetched, or that
instruction and possibly what is read after it. -/
theorem listing_induction {motive : Nat → Nat → List Placed → Prop}
    (nil : ∀ budget cursor, motive budget cursor [])
    (single : ∀ budget cursor instruction next, image.fetch cursor = .ok (instruction, next) →
      motive budget cursor [⟨BitVec.ofNat 16 cursor, instruction⟩])
    (cons : ∀ budget cursor instruction next rest, image.fetch cursor = .ok (instruction, next) →
      motive budget next rest →
      motive (budget + 1) cursor (⟨BitVec.ofNat 16 cursor, instruction⟩ :: rest))
    (budget cursor : Nat) : motive budget cursor (image.scan budget cursor).listing := by
  induction budget using Nat.strongRecOn generalizing cursor with
  | ind budget ih =>
    rcases image.scan_cases budget cursor with ⟨e, -, hscan⟩ | ⟨instruction, next, hfetch,
      ⟨-, hscan⟩ | ⟨-, ⟨-, hscan⟩ | ⟨fewer, rfl, -, -, hscan⟩⟩⟩
    · rw [hscan]
      exact nil budget cursor
    · rw [hscan]
      exact single budget cursor instruction next hfetch
    · rw [hscan]
      exact single budget cursor instruction next hfetch
    · rw [hscan]
      exact cons fewer cursor instruction next _ hfetch (ih fewer (Nat.lt_succ_self fewer) next)

/-- Whatever is read has been decoded, also if reading fails later on. -/
theorem isDecoded_of_mem_scan (image : Image) (budget cursor : Nat) {p : Placed}
    (hp : p ∈ (image.scan budget cursor).listing) : p.instruction.operation.IsDecoded := by
  suffices h : ∀ p ∈ (image.scan budget cursor).listing, p.instruction.operation.IsDecoded from
    h p hp
  refine listing_induction (motive := fun _ _ listing =>
    ∀ p ∈ listing, p.instruction.operation.IsDecoded) ?_ ?_ ?_ budget cursor
  · exact fun _ _ => List.forall_mem_nil _
  · exact fun _ _ _ _ hfetch => List.forall_mem_singleton.mpr (fetch_ok hfetch).1
  · exact fun _ _ _ _ _ hfetch hrest => List.forall_mem_cons.mpr ⟨(fetch_ok hfetch).1, hrest⟩

/-- No more instructions are read than there are bytes, as each takes one at least. -/
theorem length_listing_le (image : Image) (budget cursor : Nat) :
    (image.scan budget cursor).listing.length ≤ image.size - cursor := by
  refine listing_induction (motive := fun _ cursor listing =>
    listing.length ≤ image.size - cursor) ?_ ?_ ?_ budget cursor
  · exact fun _ _ => Nat.zero_le _
  · intro _ cursor _ next hfetch
    obtain ⟨-, hlt, hle⟩ := fetch_ok hfetch
    rw [List.length_singleton]
    omega
  · intro _ cursor _ next rest hfetch hrest
    obtain ⟨-, hlt, hle⟩ := fetch_ok hfetch
    rw [List.length_cons]
    omega

/-- No more instructions are read than are **allowed**, the first one being free. -/
theorem length_listing_le_allowed (image : Image) (budget cursor : Nat) :
    (image.scan budget cursor).listing.length ≤ budget + 1 := by
  refine listing_induction (motive := fun budget _ listing =>
    listing.length ≤ budget + 1) ?_ ?_ ?_ budget cursor
  · exact fun _ _ => Nat.zero_le _
  · exact fun budget _ _ _ _ => Nat.succ_le_succ (Nat.zero_le budget)
  · exact fun _ _ _ _ _ _ hrest => Nat.succ_le_succ hrest

end Image

end Dynarec.Guest
