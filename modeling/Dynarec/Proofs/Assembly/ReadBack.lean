import Mathlib.Data.List.Forall2
import Dynarec.Proofs.Assembly.Entries

/-!
# Reading emitted code back

Which instructions the assembler accepts is said operand by operand (`Instruction.IsBuildable`), and
`emitted_read_back` says that all of them can be told from their bytes: disassembling a stream of
such instructions gives back the instructions that were emitted, and no other sequence of them is
assembled into the same bytes.
-/

namespace Dynarec

open Host (Instruction disassemble)

namespace Host.Instruction

/-! ### What can be built -/

/-- Whether an instruction **can be built**: `rsp` is no index, addresses have 32 or 64 bits, a
shift shifts by something, a bit test looks at the low 32 bits, a short branch goes no further than
its displacement can say, and a call has a target. Everything else can always be built. -/
def IsBuildable (i : Instruction) : Prop :=
  (∀ m, i.memory? = some m → m.index ≠ some .rsp) ∧
    match i with
    | lea size _ _ => size = .dword ∨ size = .qword
    | shift _ _ _ amount => 1 ≤ amount.toNat
    | bitTest _ bit => bit.toNat < 32
    | branch _ .short displacement => -128 ≤ displacement.toInt ∧ displacement.toInt ≤ 127
    | call target => target.isSome = true
    | _ => True

/-- A number is the sign extension of its lowest byte if it is small enough, which is what a short
branch asks of its displacement. -/
theorem signExtend_byte_eq_iff (d : BitVec 32) :
    (d.setWidth 8).signExtend 32 = d ↔ -128 ≤ d.toInt ∧ d.toInt ≤ 127 := by
  have hbyte : (d.setWidth 8).toInt = d.toInt.bmod 256 := by
    rw [BitVec.toInt_setWidth, BitVec.toInt_eq_toNat_bmod, Int.bmod_bmod_of_dvd (by decide)]
  rw [← BitVec.toInt_inj, BitVec.toInt_signExtend_of_le (by decide), hbyte, Int.bmod_def]
  omega

theorem bind_index_eq_iff (i : Instruction) :
    i.memory?.bind (·.index) = some .rsp ↔ ¬ ∀ m, i.memory? = some m → m.index ≠ some .rsp := by
  cases i.memory? <;> simp

/-- What can be built is what has an **encoding**: the conditions on the operands say in words what
the check for faults does. -/
theorem isEncodable_iff (i : Instruction) : i.IsEncodable ↔ i.IsBuildable := by
  unfold IsEncodable fault? IsBuildable
  by_cases hindex : i.memory?.bind (·.index) = some .rsp
  · rw [if_pos hindex]
    exact iff_of_false nofun fun h => i.bind_index_eq_iff.mp hindex h.1
  · rw [if_neg hindex, and_iff_right (not_not.mp (mt i.bind_index_eq_iff.mpr hindex))]
    cases i with
    | lea size dst m => cases size <;> simp
    | shift op size dst amount =>
      by_cases hamount : amount = 0
      · subst hamount
        simp
      · have hpos : 1 ≤ amount.toNat := Nat.one_le_iff_ne_zero.mpr fun h =>
          hamount (BitVec.eq_of_toNat_eq h)
        refine iff_of_true ?_ hpos
        split <;> simp_all
    | bitTest src bit => simp
    | branch condition width d =>
      cases width with
      | near => simp
      | short => simp [signExtend_byte_eq_iff]
    | call target => cases target <;> simp
    | _ => simp

end Host.Instruction

namespace Assembly

/-! ### Emitted instructions -/

/-- The bytes of instructions are disassembled into those instructions, with nothing left over. -/
theorem disassemble_straightBytes {is : List Instruction} (h : ∀ i ∈ is, i.IsEncodable) :
    disassemble (straightBytes is) = some (entries 0 is) := by
  have hdisassemble := disassembleFrom_straightBytes h 0 []
  rw [List.append_nil] at hdisassemble
  rw [disassemble, hdisassemble, Host.disassembleFrom, Option.map_some, List.append_nil]

/-- The entries of instructions have the canonical forms of those instructions. -/
@[simp]
theorem instructions_entries (is : List Instruction) (offset : Nat) :
    (entries offset is).map (·.instruction) = is.map Instruction.canonical := by
  induction is generalizing offset with
  | nil => rfl
  | cons i is ih => rw [entries, List.map_cons, ih, List.map_cons]

/-- A disassembly lists what the instructions are read as, one entry for each of them. -/
theorem readsAs_entries (is : List Instruction) (offset : Nat) :
    List.Forall₂ Instruction.ReadsAs is ((entries offset is).map (·.instruction)) := by
  rw [instructions_entries, List.forall₂_map_right_iff, List.forall₂_same]
  exact fun i _ => i.readsAs_canonical

namespace CodeStream

/-- Only instructions that have an encoding are emitted. -/
theorem encodable_of_run {is : List Instruction} {s t : CodeStream}
    (h : s.run (is.map .emit) = .ok t) : ∀ i ∈ is, i.IsEncodable := by
  induction is generalizing s with
  | nil =>
    intro i hi
    cases hi
  | cons i is ih =>
    by_cases hi : i.IsEncodable
    · have hstep : s.step (.emit i) = .ok (s.append i.encode) := by
        simp only [step, emit, Instruction.assemble, show i.fault? = none from hi]
      rw [List.map_cons, run_cons_ok hstep] at h
      intro j hj
      rcases List.mem_cons.mp hj with rfl | hj
      · exact hi
      · exact ih h j hj
    · obtain ⟨fault, hfault⟩ := Option.ne_none_iff_exists'.mp hi
      have hstep : s.step (.emit i) = .error fault := by
        simp only [step, emit, Instruction.assemble, hfault]
      rw [List.map_cons, run, List.foldlM_cons, hstep] at h
      cases h

/-- The stream that instructions are emitted into holds their bytes. -/
theorem data_of_run_emit {is : List Instruction} {s : CodeStream}
    (h : empty.run (is.map .emit) = .ok s) : s.data.toList = straightBytes is := by
  obtain ⟨t, ht, hdata, -, -⟩ := empty.run_emit (encodable_of_run h)
  obtain rfl : t = s := Except.ok.inj (ht.symm.trans h)
  simpa [empty] using hdata

end CodeStream

/-- **The assembler is undone by the decoder.** Exactly the buildable instructions are assembled,
each into at most fifteen bytes that are read as one instruction of that length, whatever follows
them, and as the instruction that was meant. So the code of any sequence of them is disassembled
into that sequence, and two sequences with the same code are the same, up to what is not encoded of
their immediate operands. -/
theorem emitted_read_back :
    (∀ i : Instruction, i.IsBuildable →
      ∃ code j, i.assemble = .ok code ∧ code.length ≤ Instruction.maxLength ∧ i.ReadsAs j ∧
        ∀ rest, Host.decode (code ++ rest) = some (j, code.length)) ∧
    (∀ i : Instruction, ¬ i.IsBuildable → ∃ fault, i.assemble = .error fault) ∧
    (∀ is : List Instruction, (∀ i ∈ is, i.IsBuildable) →
      ∃ s listing, CodeStream.empty.run (is.map .emit) = .ok s ∧ s.finish = .ok s.data ∧
        disassemble s.data.toList = some listing ∧
        List.Forall₂ Instruction.ReadsAs is (listing.map (·.instruction))) ∧
    (∀ (is js : List Instruction) (s t : CodeStream),
      CodeStream.empty.run (is.map .emit) = .ok s → CodeStream.empty.run (js.map .emit) = .ok t →
      s.data = t.data →
      List.Forall₂ (fun i j => i.withImmediate 0 = j.withImmediate 0 ∧
        (i.FitsImmediate → j.FitsImmediate → i.immediate? = j.immediate?)) is js) := by
  refine ⟨fun i hi => ?_, fun i hi => ?_, fun is his => ?_, fun is js s t hs ht hdata => ?_⟩
  · -- a buildable instruction has an encoding, which is decoded to its canonical form
    have hencodable : i.IsEncodable := i.isEncodable_iff.mpr hi
    refine ⟨i.encode, i.canonical, ?_, i.length_le, i.readsAs_canonical,
      Instruction.decode_encode hencodable⟩
    rw [Instruction.assemble, show i.fault? = none from hencodable]
  · obtain ⟨fault, hfault⟩ :=
      Option.ne_none_iff_exists'.mp (mt i.isEncodable_iff.mp hi)
    exact ⟨fault, by rw [Instruction.assemble, hfault]⟩
  · -- one after another, they are disassembled in the order in which they were emitted
    have hencodable : ∀ i ∈ is, i.IsEncodable := fun i hi => i.isEncodable_iff.mpr (his i hi)
    obtain ⟨s, hs, hdata, hpatches, -⟩ := CodeStream.empty.run_emit hencodable
    refine ⟨s, entries 0 is, hs, ?_, ?_, readsAs_entries is 0⟩
    · rw [CodeStream.finish, hpatches]
      rfl
    · rw [hdata]
      exact disassemble_straightBytes hencodable
  · -- equal bytes have one disassembly, and so the instructions have equal canonical forms
    have hlistings : entries 0 is = entries 0 js := Option.some.inj <| by
      rw [← disassemble_straightBytes (CodeStream.encodable_of_run hs),
        ← disassemble_straightBytes (CodeStream.encodable_of_run ht),
        ← CodeStream.data_of_run_emit hs, ← CodeStream.data_of_run_emit ht, hdata]
    have hcanonical : is.map Instruction.canonical = js.map Instruction.canonical := by
      rw [← instructions_entries is 0, hlistings, instructions_entries]
    rw [← List.forall₂_eq_eq_eq, List.forall₂_map_left_iff, List.forall₂_map_right_iff]
      at hcanonical
    refine hcanonical.imp fun i j hij => ?_
    exact i.readsAs_canonical.trans_symm (hij ▸ j.readsAs_canonical)

/-- Byte registers that need a prefix, bases that need a displacement or an index byte, constants
that are read back in other bits than they were given in, and a short branch backwards. -/
def mixedInstructions : List Instruction :=
  [.mov .byte .rsi (.immediate (-1)), .load .qword .r9 ⟨.r13, some .r12, 0⟩,
    .lea .dword .rax ⟨.rsp, none, 0x80⟩, .alu .cmp .word .rdx (.immediate 0xFE00),
    .shift .rcr .byte .rdi 255, .bitTest .r15 31, .branch (some .equal) .short (-5)]

/-- Instructions of several kinds, two of them with a constant, are read back, and one that has no
encoding is refused. -/
theorem emitted_read_back_mixed :
    (∃ s listing, CodeStream.empty.run (mixedInstructions.map .emit) = .ok s ∧
      s.finish = .ok s.data ∧ disassemble s.data.toList = some listing ∧
      List.Forall₂ Instruction.ReadsAs mixedInstructions (listing.map (·.instruction))) ∧
    (entries 0 mixedInstructions).map (fun e => (e.offset, e.instruction.immediate?)) =
      [(0, some 0xFF), (3, none), (8, none), (15, some 0xFE00), (20, none), (24, none),
        (29, none)] ∧
    ∃ fault, (Instruction.lea .word .rax (.ofBase .rbx)).assemble = .error fault :=
  ⟨emitted_read_back.2.2.1 mixedInstructions fun i hi => by
      rw [← Instruction.isEncodable_iff]
      revert i
      decide,
    by decide, emitted_read_back.2.1 _ (by rw [← Instruction.isEncodable_iff]; decide)⟩

end Assembly

end Dynarec
