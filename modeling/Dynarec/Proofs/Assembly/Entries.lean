import Dynarec.Proofs.Assembly.Layout
import Dynarec.Proofs.Host.Disassembly

/-!
# Disassembled code

Where the instructions of structured code stand once it is laid out, branches included, is said by
`Code.entries`, and a disassembly of the machine code finds just these
(`Code.disassembleFrom_bytes`). They stand one after another without a gap, from the first byte of
the code to its last.
-/

namespace Dynarec

open Host (Condition Entry Instruction disassemble disassembleFrom)

namespace Assembly

/-! ### Entries -/

/-- What a disassembly lists for instructions that are laid out from an offset on. -/
def entries (offset : Nat) : List Instruction → List Entry
  | [] => []
  | i :: is => ⟨offset, i.canonical⟩ :: entries (offset + i.length) is

/-- The entry of a branch over a number of bytes. -/
def branchEntry (offset : Nat) (condition : Option Condition) (width : BranchWidth)
    (distance : Nat) : Entry :=
  ⟨offset, .branch condition width (BitVec.ofNat 32 distance)⟩

/-- The entries of the tests of a choice, whose slow alternative starts `distance` bytes after their
end. -/
def testEntries (distance : Nat) :
    (offset : Nat) → List (List Instruction × Condition) → List Entry
  | _, [] => []
  | offset, (is, condition) :: tests =>
    let here := offset + (straightBytes is).length
    entries offset is ++
      branchEntry here (some condition) .near ((testBytes distance tests).length + distance) ::
        testEntries distance (here + branchLength (some condition) .near) tests

/-- **What a disassembly lists** for structured code that is laid out from an offset on. -/
def Code.entries : Code → (offset : Nat) → List Entry
  | straight is, offset => Assembly.entries offset is
  | seq first second, offset =>
    first.entries offset ++ second.entries (offset + first.bytes.length)
  | skip condition width body, offset =>
    branchEntry offset (some condition) width body.bytes.length ::
      body.entries (offset + branchLength (some condition) width)
  | choose tests fast slow, offset =>
    let distance := fast.bytes.length + branchLength none .near
    let start := offset + (testBytes distance tests).length
    testEntries distance offset tests ++ fast.entries start ++
      branchEntry (start + fast.bytes.length) none .near slow.bytes.length ::
        slow.entries (start + distance)

/-! ### Disassembly -/

/-- Instructions are disassembled one by one, up to where they end, whatever follows them. -/
theorem disassembleFrom_straightBytes {is : List Instruction} (h : ∀ i ∈ is, i.IsEncodable)
    (offset : Nat) (rest : List Byte) :
    disassembleFrom offset (straightBytes is ++ rest) =
      (disassembleFrom (offset + (straightBytes is).length) rest).map (entries offset is ++ ·) := by
  induction is generalizing offset with
  | nil => simp [entries]
  | cons i is ih =>
    have hrest := ih (fun j hj => h j (List.mem_cons_of_mem _ hj)) (offset + i.length)
    rw [straightBytes_cons, List.append_assoc,
      Instruction.disassembleFrom_encode (h i List.mem_cons_self), hrest, List.length_append,
      ← Instruction.length, ← Nat.add_assoc, Option.map_map]
    rfl

/-- A branch over some bytes is disassembled into one entry. -/
theorem disassembleFrom_branchOver {condition : Option Condition} {width : BranchWidth}
    {distance : Nat} (h : distance < reach width) (offset : Nat) (rest : List Byte) :
    disassembleFrom offset (branchOver condition width distance ++ rest) =
      (disassembleFrom (offset + branchLength condition width) rest).map
        (branchEntry offset condition width distance :: ·) := by
  rw [branchOver, Instruction.disassembleFrom_encode (isEncodable_branch h condition),
    Instruction.length, ← branchOver, length_branchOver]
  rfl

/-- Tests are disassembled into their instructions, with a branch behind those of each test. -/
theorem disassembleFrom_testBytes {distance : Nat} {tests : List (List Instruction × Condition)}
    (htests : ∀ t ∈ tests, ∀ i ∈ t.1, i.IsPlain)
    (hreach : (testBytes distance tests).length + distance < reach .near) (offset : Nat)
    (rest : List Byte) :
    disassembleFrom offset (testBytes distance tests ++ rest) =
      (disassembleFrom (offset + (testBytes distance tests).length) rest).map
        (testEntries distance offset tests ++ ·) := by
  induction tests generalizing offset with
  | nil => simp [testBytes, testEntries]
  | cons test tests ih =>
    obtain ⟨is, condition⟩ := test
    have his : ∀ i ∈ is, i.IsEncodable := fun i hi =>
      (htests (is, condition) List.mem_cons_self i hi).encodable
    simp only [testBytes, List.length_append, length_branchOver] at hreach ⊢
    have hrest := ih (fun t ht => htests t (List.mem_cons_of_mem _ ht)) (by omega)
      (offset + (straightBytes is).length + branchLength (some condition) .near)
    rw [List.append_assoc, List.append_assoc, disassembleFrom_straightBytes his,
      disassembleFrom_branchOver (by omega), hrest, Option.map_map, Option.map_map]
    simp only [testEntries, ← Nat.add_assoc]
    congr 1
    funext listing
    simp

namespace Code

/-- **Disassembling structured code** yields its entries, and then what follows it. The code is read
from its first byte to its last without looking at where its branches lead. -/
theorem disassembleFrom_bytes {c : Code} (hc : c.Fits) (offset : Nat) (rest : List Byte) :
    disassembleFrom offset (c.bytes ++ rest) =
      (disassembleFrom (offset + c.bytes.length) rest).map (c.entries offset ++ ·) := by
  induction c generalizing offset rest with
  | straight is => exact disassembleFrom_straightBytes (fun i hi => (hc i hi).encodable) offset rest
  | seq first second ihf ihs =>
    rw [bytes, List.append_assoc, ihf hc.1, ihs hc.2, Option.map_map, List.length_append,
      ← Nat.add_assoc]
    congr 1
    funext listing
    simp [entries]
  | skip condition width body ih =>
    rw [bytes, List.append_assoc, disassembleFrom_branchOver hc.2, ih hc.1, Option.map_map,
      List.length_append, length_branchOver, ← Nat.add_assoc]
    rfl
  | choose tests fast slow ihf ihs =>
    obtain ⟨htests, hfast, hslow, hreach, hreach'⟩ := hc
    rw [bytes, List.append_assoc, List.append_assoc, List.append_assoc,
      disassembleFrom_testBytes htests hreach, ihf hfast, disassembleFrom_branchOver hreach',
      ihs hslow, Option.map_map, Option.map_map, Option.map_map]
    simp only [List.length_append, length_branchOver, ← Nat.add_assoc]
    congr 1
    funext listing
    simp [entries, Nat.add_assoc]

/-- Machine code that is structured code is **disassembled into its entries**, from its first byte
to its last. -/
theorem disassemble_bytes {c : Code} (hc : c.Fits) :
    disassemble c.bytes = some (c.entries 0) := by
  have h := disassembleFrom_bytes hc 0 []
  rw [List.append_nil] at h
  rw [disassemble, h, disassembleFrom, Option.map_some, List.append_nil]

end Code

/-! ### The order of entries -/

/-- Entries **in order**: their offsets increase, and lie between two offsets. -/
structure Ordered (listing : List Entry) (lower upper : Nat) : Prop where
  le : lower ≤ upper
  offsets : ∀ e ∈ listing, lower ≤ e.offset ∧ e.offset < upper
  increasing : listing.Pairwise fun e e' => e.offset < e'.offset

namespace Ordered

variable {listing more : List Entry} {l m u : Nat}

theorem nil (offset : Nat) : Ordered [] offset offset where
  le := Nat.le_refl _
  offsets e he := by cases he
  increasing := .nil

/-- Two listings are in order one after the other if the second one starts where the first one
ends. -/
theorem append (h : Ordered listing l m) (h' : Ordered more m u) :
    Ordered (listing ++ more) l u where
  le := Nat.le_trans h.le h'.le
  offsets e he := by
    have := h.le
    have := h'.le
    rcases List.mem_append.mp he with he | he
    · have := h.offsets e he
      omega
    · have := h'.offsets e he
      omega
  increasing := List.pairwise_append.mpr ⟨h.increasing, h'.increasing, fun e he e' he' =>
    Nat.lt_of_lt_of_le (h.offsets e he).2 (h'.offsets e' he').1⟩

/-- An entry in front of a listing is in order if it stands before the start of the listing. -/
theorem cons {e : Entry} (hlt : e.offset < m) (h : Ordered listing m u) :
    Ordered (e :: listing) e.offset u := by
  have hfirst : Ordered [e] e.offset m :=
    ⟨Nat.le_of_lt hlt, by simp [hlt], List.pairwise_singleton _ _⟩
  exact hfirst.append h

end Ordered

/-- The entries of instructions are in order, since no instruction is empty. -/
theorem ordered_entries {is : List Instruction} (h : ∀ i ∈ is, i.IsEncodable) (offset : Nat) :
    Ordered (entries offset is) offset (offset + (straightBytes is).length) := by
  induction is generalizing offset with
  | nil => exact .nil offset
  | cons i is ih =>
    have hpos := Instruction.length_pos (h i List.mem_cons_self)
    have hrest := ih (fun j hj => h j (List.mem_cons_of_mem _ hj)) (offset + i.length)
    rw [straightBytes_cons, List.length_append, ← Instruction.length, ← Nat.add_assoc]
    exact .cons (Nat.lt_add_of_pos_right hpos) hrest

/-- A branch stands before what follows it. -/
theorem Ordered.branch {listing : List Entry} {offset upper : Nat} (condition : Option Condition)
    (width : BranchWidth) (distance : Nat)
    (h : Ordered listing (offset + branchLength condition width) upper) :
    Ordered (branchEntry offset condition width distance :: listing) offset upper :=
  .cons (Nat.lt_add_of_pos_right (branchLength_pos condition width)) h

/-- The entries of tests are in order. -/
theorem ordered_testEntries {distance : Nat} {tests : List (List Instruction × Condition)}
    (htests : ∀ t ∈ tests, ∀ i ∈ t.1, i.IsPlain) (offset : Nat) :
    Ordered (testEntries distance offset tests) offset
      (offset + (testBytes distance tests).length) := by
  induction tests generalizing offset with
  | nil => exact .nil offset
  | cons test tests ih =>
    obtain ⟨is, condition⟩ := test
    have his : ∀ i ∈ is, i.IsEncodable := fun i hi =>
      (htests (is, condition) List.mem_cons_self i hi).encodable
    have hrest := ih (fun t ht => htests t (List.mem_cons_of_mem _ ht))
      (offset + (straightBytes is).length + branchLength (some condition) .near)
    simp only [testBytes, List.length_append, length_branchOver, ← Nat.add_assoc]
    exact (ordered_entries his offset).append (.branch _ _ _ hrest)

/-- The entries of structured code are **in order**: each of them starts after the one before it,
and all of them lie inside of the code. -/
theorem Code.ordered_entries {c : Code} (hc : c.Fits) (offset : Nat) :
    Ordered (c.entries offset) offset (offset + c.bytes.length) := by
  induction c generalizing offset with
  | straight is => exact Assembly.ordered_entries (fun i hi => (hc i hi).encodable) offset
  | seq first second ihf ihs =>
    rw [bytes, List.length_append, ← Nat.add_assoc]
    exact (ihf hc.1 offset).append (ihs hc.2 _)
  | skip condition width body ih =>
    rw [bytes, List.length_append, length_branchOver, ← Nat.add_assoc]
    exact .branch _ _ _ (ih hc.1 _)
  | choose tests fast slow ihf ihs =>
    obtain ⟨htests, hfast, hslow, -, -⟩ := hc
    have hslowEntries := ihs hslow (offset + (testBytes
      (fast.bytes.length + branchLength none .near) tests).length + fast.bytes.length +
        branchLength none .near)
    simp only [bytes, entries, List.length_append, length_branchOver, ← Nat.add_assoc]
    exact ((ordered_testEntries htests offset).append (ihf hfast _)).append
      (.branch _ _ _ hslowEntries)

end Assembly

end Dynarec
