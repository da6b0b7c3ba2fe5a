import Mathlib.Algebra.GroupWithZero.Nat
import Dynarec.Proofs.Guest.Tables

/-!
# Streams of instructions

A byte stream that is read on after errors falls into **segments**: opcodes that do not exist, each
one byte, and instructions as the opcode tables encode them (`Encodes`). What is left at its end is
the beginning of an instruction. There is exactly one way to split a stream like this
(`existsUnique_splits`), since no encoding begins with another one (`Encodes.eq_of_append_eq`).

The byte-fed decoder follows the segments: it reports an unknown opcode at once, answers with an
instruction exactly at its last byte, and is inside an instruction in between
(`Decoder.follows_segments`).
-/

namespace Dynarec.Guest

open Opcode (operandSize tableSwitch)

/-! ### Encodings -/

/-- The bytes that **encode** an instruction, by the opcode tables: the table switch and an opcode
of the second table, or an opcode of the first table and its little endian operand. -/
inductive Encodes : List Byte → Instruction → Prop
  | prefixed (opcode : Byte) : Encodes [tableSwitch, opcode] ⟨Opcode.decodePrefixed opcode, 2⟩
  | plain {opcode : Byte} {operand : List Byte} : opcode ≠ tableSwitch →
      operandSize opcode = some operand.length →
        Encodes (opcode :: operand) ⟨Opcode.decode opcode (wordLE 16 operand), 1 + operand.length⟩

/-- Whether bytes are the **beginning** of an instruction. They may be none, but not all of it. -/
def Begins (bytes : List Byte) : Prop := ∃ more i, more ≠ [] ∧ Encodes (bytes ++ more) i

namespace Encodes

variable {bytes : List Byte} {i : Instruction}

/-- The size of an instruction is the number of its bytes. -/
theorem size_eq (h : Encodes bytes i) : i.size = bytes.length := by
  cases h with
  | prefixed opcode => rfl
  | plain => exact Nat.add_comm _ _

/-- An instruction has bytes, an opcode at least. -/
theorem ne_nil (h : Encodes bytes i) : bytes ≠ [] := by
  cases h with
  | prefixed opcode => exact List.cons_ne_nil _ _
  | plain => exact List.cons_ne_nil _ _

/-- No encoding **begins with another one**: the opcode tells how many bytes of an operand follow,
and a prefix tells that one opcode does. -/
theorem eq_of_append_eq {bytes' more more' : List Byte} {i' : Instruction} (h : Encodes bytes i)
    (h' : Encodes bytes' i') (heq : bytes ++ more = bytes' ++ more') : bytes = bytes' ∧ i = i' := by
  cases h with
  | prefixed opcode =>
    cases h' with
    | prefixed opcode' =>
      obtain ⟨-, hopcode⟩ := List.cons.inj heq
      obtain ⟨rfl, -⟩ := List.cons.inj hopcode
      exact ⟨rfl, rfl⟩
    | plain hne =>
      obtain ⟨hopcode, -⟩ := List.cons.inj heq
      exact absurd hopcode.symm hne
  | @plain opcode operand hne hsize =>
    cases h' with
    | prefixed opcode' =>
      obtain ⟨hopcode, -⟩ := List.cons.inj heq
      exact absurd hopcode hne
    | @plain opcode' operand' hne' hsize' =>
      obtain ⟨rfl, hrest⟩ := List.cons.inj heq
      -- the opcode tells how long the operand is
      have hlength : operand.length = operand'.length := Option.some.inj (hsize.symm.trans hsize')
      obtain ⟨rfl, -⟩ := List.append_inj hrest hlength
      exact ⟨rfl, rfl⟩

/-- An encoding begins with an opcode that **exists**, or with a prefix. -/
theorem operandSize_ne_none {opcode : Byte} {more : List Byte} (h : Encodes (opcode :: more) i) :
    operandSize opcode ≠ none := by
  intro hnone
  cases h with
  | prefixed => exact absurd hnone (by decide)
  | plain hne hsize => exact nomatch hnone.symm.trans hsize

end Encodes

/-- Nothing at all is the beginning of an instruction. -/
theorem begins_nil : Begins [] := ⟨_, _, List.cons_ne_nil _ _, .prefixed 0⟩

/-- A beginning of an instruction does not **contain** one, since no encoding begins with another
one. -/
theorem Begins.not_encodes {bytes more : List Byte} {i : Instruction} (h : Begins (bytes ++ more)) :
    ¬ Encodes bytes i := by
  intro hencodes
  obtain ⟨after, i', hafter, hwhole⟩ := h
  have hsplit : bytes ++ (more ++ after) = (bytes ++ more ++ after) ++ [] := by
    rw [List.append_nil, List.append_assoc]
  have hall := (hencodes.eq_of_append_eq hwhole hsplit).1
  have hlength := congrArg List.length hall
  rw [List.length_append, List.length_append] at hlength
  have hpos := List.length_pos_iff.mpr hafter
  omega

/-! ### Segments -/

/-- A **segment** of a byte stream. -/
inductive Segment
  | unknown (opcode : Byte)
  | instruction (bytes : List Byte) (i : Instruction)

namespace Segment

def bytes : Segment → List Byte
  | unknown opcode => [opcode]
  | instruction bytes _ => bytes

/-- Whether the opcode tables **allow** a segment. -/
def Allowed : Segment → Prop
  | unknown opcode => operandSize opcode = none
  | instruction bytes i => Encodes bytes i

/-- What the bytes of a segment bring about, each with whether the decoder is **inside an
instruction** after it. -/
def answers : Segment → List (Fed × Bool)
  | unknown opcode => [(.unknown opcode, false)]
  | instruction bytes i =>
    List.replicate (bytes.length - 1) (.pending, true) ++ [(.complete i, false)]

variable {s : Segment}

/-- A segment has bytes. -/
theorem Allowed.bytes_ne_nil (h : s.Allowed) : s.bytes ≠ [] := by
  cases s with
  | unknown opcode => exact List.cons_ne_nil _ _
  | instruction bytes i => exact h.ne_nil

/-- A segment is determined by **any stream** that begins with it. An unknown opcode and an
instruction are told apart by their first byte. -/
theorem Allowed.eq_of_append_eq {s' : Segment} {more more' : List Byte} (h : s.Allowed)
    (h' : s'.Allowed) (heq : s.bytes ++ more = s'.bytes ++ more') : s = s' := by
  cases s with
  | unknown opcode =>
    cases s' with
    | unknown opcode' => exact congrArg unknown (List.cons.inj heq).1
    | instruction bytes' i' =>
      obtain ⟨opcode', rest, rfl⟩ := List.exists_cons_of_ne_nil h'.ne_nil
      obtain ⟨rfl, -⟩ := List.cons.inj heq
      exact absurd h h'.operandSize_ne_none
  | instruction bytes i =>
    cases s' with
    | unknown opcode' =>
      obtain ⟨opcode, rest, rfl⟩ := List.exists_cons_of_ne_nil h.ne_nil
      obtain ⟨rfl, -⟩ := List.cons.inj heq
      exact absurd h' h.operandSize_ne_none
    | instruction bytes' i' =>
      obtain ⟨rfl, rfl⟩ := Encodes.eq_of_append_eq h h' heq
      rfl

/-- The beginning of an instruction does not **contain** a segment, so that a stream cannot end in
both ways. -/
theorem Allowed.not_begins (h : s.Allowed) (more : List Byte) : ¬ Begins (s.bytes ++ more) := by
  intro hbegins
  cases s with
  | unknown opcode =>
    obtain ⟨after, i, -, hwhole⟩ := hbegins
    exact hwhole.operandSize_ne_none h
  | instruction bytes i => exact hbegins.not_encodes h

end Segment

/-- What **a stream begins with**: a segment, or nothing but the beginning of an instruction. The
first byte decides between them, and how many bytes there are. -/
theorem begins_or_exists_segment (bytes : List Byte) :
    Begins bytes ∨ ∃ s : Segment, s.Allowed ∧ ∃ rest, s.bytes ++ rest = bytes := by
  rcases bytes with _ | ⟨opcode, rest⟩
  · exact .inl begins_nil
  by_cases hswitch : opcode = tableSwitch
  · subst hswitch
    rcases rest with _ | ⟨second, rest⟩
    · exact .inl ⟨[0], _, List.cons_ne_nil _ _, .prefixed 0⟩
    · exact .inr ⟨.instruction _ _, .prefixed second, rest, rfl⟩
  rcases hsize : operandSize opcode with _ | count
  · exact .inr ⟨.unknown opcode, hsize, rest, rfl⟩
  by_cases hcount : count ≤ rest.length
  · have hlength : (rest.take count).length = count := List.length_take_of_le hcount
    refine .inr ⟨.instruction _ _, .plain hswitch (hsize.trans (congrArg some hlength.symm)),
      rest.drop count, ?_⟩
    exact congrArg (List.cons opcode) (List.take_append_drop count rest)
  · -- the bytes that are missing may be any
    have hlength : (rest ++ List.replicate (count - rest.length) 0).length = count := by
      rw [List.length_append, List.length_replicate]
      omega
    refine .inl ⟨List.replicate (count - rest.length) 0, _, ?_,
      .plain hswitch (hsize.trans (congrArg some hlength.symm))⟩
    intro hnone
    have hzero := congrArg List.length hnone
    rw [List.length_replicate] at hzero
    exact hcount (Nat.sub_eq_zero_iff_le.mp hzero)

/-! ### Splitting a stream -/

/-- Segments, and the bytes of the instruction that is **not complete** at the end. -/
structure Segmentation where
  segments : List Segment
  pending : List Byte

namespace Segmentation

/-- Whether a segmentation **splits** a stream. -/
structure Splits (s : Segmentation) (bytes : List Byte) : Prop where
  allowed : ∀ segment ∈ s.segments, segment.Allowed
  begins : Begins s.pending
  bytes : s.segments.flatMap Segment.bytes ++ s.pending = bytes

/-- What the bytes of a stream bring about, each with whether the decoder is inside an instruction
after it. -/
def answers (s : Segmentation) : List (Fed × Bool) :=
  s.segments.flatMap Segment.answers ++ List.replicate s.pending.length (.pending, true)

/-- A segmentation with a segment in front. -/
def cons (first : Segment) (s : Segmentation) : Segmentation := ⟨first :: s.segments, s.pending⟩

/-- The answers to a segmentation are those to its segments in order. -/
theorem answers_cons (first : Segment) (s : Segmentation) :
    (s.cons first).answers = first.answers ++ s.answers := List.append_assoc _ _ _

variable {s : Segmentation} {bytes : List Byte}

/-- One more segment in front of a stream that is split. -/
theorem Splits.cons {first : Segment} (h : s.Splits bytes) (hfirst : first.Allowed) :
    (s.cons first).Splits (first.bytes ++ bytes) where
  allowed := List.forall_mem_cons.mpr ⟨hfirst, h.allowed⟩
  begins := h.begins
  bytes := by
    rw [← h.bytes, ← List.append_assoc]
    rfl

/-- **Every stream** is split by a segmentation. The induction is on the number of bytes, as each
segment takes some. -/
theorem exists_splits (bytes : List Byte) : ∃ s : Segmentation, s.Splits bytes := by
  induction hn : bytes.length using Nat.strongRecOn generalizing bytes with
  | ind n ih =>
    subst hn
    rcases begins_or_exists_segment bytes with hbegins | ⟨first, hfirst, rest, rfl⟩
    · exact ⟨⟨[], bytes⟩, List.forall_mem_nil _, hbegins, rfl⟩
    · have hpos := List.length_pos_iff.mpr hfirst.bytes_ne_nil
      obtain ⟨s, hs⟩ := ih rest.length (by rw [List.length_append]; omega) rest rfl
      exact ⟨s.cons first, hs.cons hfirst⟩

/-- What is left of a stream **behind its first segment**. -/
theorem Splits.uncons {first : Segment} (h : (s.cons first).Splits bytes) :
    first.Allowed ∧ ∃ rest, first.bytes ++ rest = bytes ∧ s.Splits rest := by
  obtain ⟨hfirst, hallowed⟩ := List.forall_mem_cons.mp h.allowed
  refine ⟨hfirst, _, ?_, hallowed, h.begins, rfl⟩
  rw [← List.append_assoc]
  exact h.bytes

/-- A stream is split in **one way** only: the first segments agree, and then those of what is left
behind them. -/
theorem Splits.unique {s' : Segmentation} (h : s.Splits bytes) (h' : s'.Splits bytes) : s = s' := by
  obtain ⟨segments, pending⟩ := s
  obtain ⟨segments', pending'⟩ := s'
  induction segments generalizing bytes segments' pending' with
  | nil =>
    obtain rfl : pending = bytes := h.bytes
    cases segments' with
    | nil =>
      obtain rfl : pending' = pending := h'.bytes
      rfl
    | cons first segments' =>
      obtain ⟨hfirst, rest, rfl, -⟩ := h'.uncons (s := ⟨segments', pending'⟩)
      exact absurd h.begins (hfirst.not_begins rest)
  | cons first segments ih =>
    obtain ⟨hfirst, rest, rfl, hrest⟩ := h.uncons (s := ⟨segments, pending⟩)
    cases segments' with
    | nil =>
      obtain rfl : pending' = first.bytes ++ rest := h'.bytes
      exact absurd h'.begins (hfirst.not_begins rest)
    | cons first' segments' =>
      obtain ⟨hfirst', rest', hbytes, hrest'⟩ := h'.uncons (s := ⟨segments', pending'⟩)
      obtain rfl := hfirst'.eq_of_append_eq hfirst hbytes
      obtain rfl := List.append_cancel_left hbytes
      exact congrArg (Segmentation.cons first') (ih hrest segments' pending' hrest')

end Segmentation

/-- Every stream is split in exactly one way. -/
theorem existsUnique_splits (bytes : List Byte) : ∃! s : Segmentation, s.Splits bytes := by
  obtain ⟨s, hs⟩ := Segmentation.exists_splits bytes
  exact ⟨s, hs, fun s' hs' => hs'.unique hs⟩

/-! ### The decoder -/

namespace Decoder

/-- The decoder after a stream. -/
def after (d : Decoder) (bytes : List Byte) : Decoder :=
  bytes.foldl (fun d byte => (d.feed byte).2) d

/-- What a stream brings about, byte by byte, each with whether the decoder is **inside an
instruction** after it. -/
def answers (d : Decoder) (bytes : List Byte) : List (Fed × Bool) :=
  (d.feedAll bytes).map fun (fed, d) => (fed, d.isPending)

variable {d : Decoder}

/-- The decoder answers the first byte and then, in the state it has reached, the others. -/
theorem answers_cons (d : Decoder) (byte : Byte) (bytes : List Byte) :
    d.answers (byte :: bytes) =
      ((d.feed byte).1, (d.feed byte).2.isPending) :: (d.feed byte).2.answers bytes := rfl

/-- The decoder answers the bytes of one stream and then, in the state it has reached, those of
another. -/
theorem answers_append (d : Decoder) (bytes more : List Byte) :
    d.answers (bytes ++ more) = d.answers bytes ++ (d.after bytes).answers more := by
  induction bytes generalizing d with
  | nil => rfl
  | cons byte bytes ih => rw [List.cons_append, answers_cons, answers_cons, ih]; rfl

/-- The decoder **collects an operand** as long as bytes of it are missing. The induction is on the
bytes, for any value collected so far. -/
theorem answers_operand_pending (opcode : Byte) {remaining : Nat} (value : BitVec 16) (shift : Nat)
    {operand : List Byte} (h : operand.length < remaining) :
    (Decoder.operand opcode remaining value shift).answers operand =
      List.replicate operand.length (.pending, true) := by
  induction operand generalizing remaining value shift with
  | nil => rfl
  | cons byte operand ih =>
    rw [List.length_cons] at h
    have hmore : ¬ remaining = 1 := by omega
    rw [answers_cons, feed]
    simp only [if_neg hmore]
    rw [ih _ _ (by omega), List.length_cons, List.replicate_succ]
    rfl

/-- The **last byte of an operand** completes the instruction, with the value of all of its bytes,
the lowest one first. -/
theorem answers_operand (opcode : Byte) (value : BitVec 16) (shift : Nat) {operand : List Byte}
    (hoperand : operand ≠ []) :
    (Decoder.operand opcode operand.length value shift).answers operand =
        List.replicate (operand.length - 1) (.pending, true) ++
          [(.complete ⟨Opcode.decode opcode (value ||| wordLE 16 operand <<< shift),
            1 + (operandSize opcode).getD 0⟩, false)] ∧
      (Decoder.operand opcode operand.length value shift).after operand = .boundary := by
  induction operand generalizing value shift with
  | nil => exact absurd rfl hoperand
  | cons byte operand ih =>
    rw [after, List.foldl_cons, answers_cons, feed]
    rcases operand with _ | ⟨next, operand⟩
    · refine ⟨?_, rfl⟩
      simp [wordLE, answers, feedAll, isPending]
    · have hmore : ¬ (byte :: next :: operand).length = 1 := by simp
      obtain ⟨hanswers, hafter⟩ := ih (value ||| byte.setWidth 16 <<< shift) (shift + 8)
        (List.cons_ne_nil _ _)
      -- the rest of the operand belongs one byte further up
      have hrest : value ||| byte.setWidth 16 <<< shift |||
            wordLE 16 (next :: operand) <<< (shift + 8) =
          value ||| wordLE 16 (byte :: next :: operand) <<< shift := by
        have hword : wordLE 16 (byte :: next :: operand) =
            byte.setWidth 16 ||| wordLE 16 (next :: operand) <<< 8 := rfl
        rw [hword, BitVec.shiftLeft_or_distrib, BitVec.or_assoc, ← BitVec.shiftLeft_add,
          Nat.add_comm shift 8]
      rw [hrest] at hanswers
      simp only [if_neg hmore]
      refine ⟨?_, hafter⟩
      exact congrArg (List.cons (Fed.pending, true)) hanswers

/-- The decoder **follows a segment** from one boundary to the next: it is inside of the instruction
at each byte but the last. -/
theorem answers_segment {s : Segment} (h : s.Allowed) :
    boundary.answers s.bytes = s.answers ∧ boundary.after s.bytes = boundary := by
  cases s with
  | unknown opcode =>
    have hsize : operandSize opcode = none := h
    have hswitch : opcode ≠ tableSwitch := by
      rintro rfl
      exact absurd hsize (by decide)
    have hfeed : boundary.feed opcode = (.unknown opcode, boundary) := by
      rw [feed, if_neg hswitch, hsize]
    rw [Segment.bytes, answers_cons, after, List.foldl_cons, hfeed]
    exact ⟨rfl, rfl⟩
  | instruction bytes i =>
    cases h with
    | prefixed opcode => exact ⟨rfl, rfl⟩
    | @plain opcode operand hswitch hsize =>
      rw [Segment.bytes, answers_cons, after, List.foldl_cons, feed, if_neg hswitch, hsize]
      rcases operand with _ | ⟨byte, operand⟩
      · exact ⟨rfl, rfl⟩
      · obtain ⟨hanswers, hafter⟩ := answers_operand opcode 0 0 (List.cons_ne_nil byte operand)
        have hvalue : (0 : BitVec 16) ||| wordLE 16 (byte :: operand) <<< 0 =
            wordLE 16 (byte :: operand) := by
          rw [BitVec.shiftLeft_zero]
          exact BitVec.zero_or
        rw [hsize, hvalue, Option.getD_some] at hanswers
        refine ⟨?_, hafter⟩
        exact congrArg (List.cons (Fed.pending, true)) hanswers

/-- The decoder is **inside an instruction** at every byte of its beginning, and completes
nothing. -/
theorem answers_begins {bytes : List Byte} (h : Begins bytes) :
    boundary.answers bytes = List.replicate bytes.length (.pending, true) := by
  obtain ⟨more, i, hmore, hwhole⟩ := h
  rcases bytes with _ | ⟨opcode, bytes⟩
  · rfl
  rw [answers_cons, List.length_cons, List.replicate_succ]
  generalize hall : opcode :: bytes ++ more = all at hwhole
  cases hwhole with
  | prefixed second =>
    obtain ⟨rfl, hsecond⟩ := List.cons.inj hall
    rcases List.append_eq_singleton_iff.mp hsecond with ⟨rfl, -⟩ | ⟨-, rfl⟩
    · rfl
    · exact absurd rfl hmore
  | @plain opcode' operand hswitch hsize =>
    obtain ⟨rfl, hoperand⟩ := List.cons.inj hall
    have hshort : bytes.length < operand.length := by
      have hpos := List.length_pos_iff.mpr hmore
      have hlength : bytes.length + more.length = operand.length :=
        List.length_append.symm.trans (congrArg List.length hoperand)
      omega
    obtain ⟨missing, hmissing⟩ := Nat.exists_eq_succ_of_ne_zero (Nat.ne_zero_of_lt hshort)
    rw [feed, if_neg hswitch, hsize, hmissing]
    exact congrArg (List.cons (Fed.pending, true))
      (answers_operand_pending opcode 0 0 (hmissing ▸ hshort))

end Decoder

/-! ### Streams -/

/-- The decoder answers a stream as its segmentation says. The induction is on the segments. -/
theorem answers_of_splits {s : Segmentation} {bytes : List Byte} (h : s.Splits bytes) :
    Decoder.boundary.answers bytes = s.answers := by
  obtain ⟨segments, pending⟩ := s
  induction segments generalizing bytes with
  | nil =>
    obtain rfl : pending = bytes := h.bytes
    exact Decoder.answers_begins h.begins
  | cons first segments ih =>
    obtain ⟨hfirst, rest, rfl, hrest⟩ := h.uncons (s := ⟨segments, pending⟩)
    obtain ⟨hanswers, hafter⟩ := Decoder.answers_segment hfirst
    rw [Decoder.answers_append, hanswers, hafter, ih hrest, ← Segmentation.answers_cons]
    rfl

namespace Fed

/-- The size of the instruction that is complete, if one is. -/
def size : Fed → Nat
  | complete i => i.size
  | _ => 0

def isUnknown : Fed → Bool
  | unknown _ => true
  | _ => false

end Fed

/-- The bytes that some answers **account for**: those of complete instructions, and unknown
opcodes. -/
def accountedFor (answers : List (Fed × Bool)) : Nat :=
  (answers.map fun a => a.1.size).sum + answers.countP fun a => a.1.isUnknown

/-- The bytes that answers account for are added up. -/
theorem accountedFor_append (answers more : List (Fed × Bool)) :
    accountedFor (answers ++ more) = accountedFor answers + accountedFor more := by
  simp only [accountedFor, List.map_append, List.sum_append, List.countP_append]
  omega

/-- Answers inside of an instruction account for no bytes yet. -/
theorem accountedFor_pending (count : Nat) :
    accountedFor (List.replicate count (.pending, true)) = 0 := by
  simp [accountedFor, List.countP_replicate, Fed.size, Fed.isUnknown]

/-- The answers to a segment account for **its bytes**: an unknown opcode for one, and an
instruction for as many as its size says. -/
theorem accountedFor_segment {s : Segment} (h : s.Allowed) :
    accountedFor s.answers = s.bytes.length := by
  cases s with
  | unknown opcode => rfl
  | instruction bytes i =>
    rw [Segment.answers, accountedFor_append, accountedFor_pending, Nat.zero_add]
    exact Encodes.size_eq h

/-- The bytes of a stream are those that its answers account for, and those that are pending. -/
theorem length_of_splits {s : Segmentation} {bytes : List Byte} (h : s.Splits bytes) :
    bytes.length = accountedFor s.answers + s.pending.length := by
  obtain ⟨segments, pending⟩ := s
  induction segments generalizing bytes with
  | nil =>
    obtain rfl : pending = bytes := h.bytes
    have hnone : accountedFor (Segmentation.answers ⟨[], pending⟩) = 0 :=
      accountedFor_pending pending.length
    rw [hnone, Nat.zero_add]
  | cons first segments ih =>
    obtain ⟨hfirst, rest, rfl, hrest⟩ := h.uncons (s := ⟨segments, pending⟩)
    have hanswers := Segmentation.answers_cons first ⟨segments, pending⟩
    rw [List.length_append, ih hrest, ← accountedFor_segment hfirst, ← Nat.add_assoc,
      ← accountedFor_append, ← hanswers]
    rfl

/-- **The decoder follows the segments of a stream.** Every stream of bytes splits in exactly one
way into opcodes that do not exist and instructions as the opcode tables encode them, and the
beginning of an instruction, which may be nothing. A decoder that is fed the stream from a boundary
on, going on after errors, reports each unknown opcode at its byte and is at a boundary then. At the
last byte of an instruction, and not before, it answers with the instruction and is at a boundary
again. At all other bytes it answers nothing and is inside an instruction. So the bytes are those of
the instructions that it has answered with, one for every error, and those of the instruction that
is not complete. -/
theorem Decoder.follows_segments (bytes : List Byte) :
    (∃! s : Segmentation, s.Splits bytes) ∧
      ∃ s : Segmentation, s.Splits bytes ∧
        (boundary.feedAll bytes).map (fun (fed, d) => (fed, d.isPending)) = s.answers ∧
        bytes.length = ((boundary.feedAll bytes).map fun a => a.1.size).sum +
          (boundary.feedAll bytes).countP (fun a => a.1.isUnknown) + s.pending.length := by
  obtain ⟨s, hs⟩ := Segmentation.exists_splits bytes
  have hanswers := answers_of_splits hs
  refine ⟨existsUnique_splits bytes, s, hs, hanswers, ?_⟩
  have hlength := length_of_splits hs
  rw [← hanswers, accountedFor, Decoder.answers, List.map_map, List.countP_map] at hlength
  exact hlength

end Dynarec.Guest
