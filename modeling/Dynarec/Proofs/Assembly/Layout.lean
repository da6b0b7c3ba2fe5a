import Dynarec.Assembly.Block
import Dynarec.Proofs.Host.Length

/-!
# The layout of structured code

`Code.bytes` is the machine code of a piece of structured code, said without labels: a branch is
followed by what it skips, so its displacement is a length. `run_commands` ties it to the code
stream: laying out code whose branches reach (`Code.Fits`) appends exactly these bytes, whatever
patches the stream still has open, and leaves no patch of its own behind.

A choice has several branches to one label. They stay open until the slow alternative is reached and
are then filled in one after another (`foldlM_resolve_testPatches`).
-/

namespace Dynarec

open Host (Instruction Condition)

namespace Host.Instruction

/-- Whether an instruction may stand in code **without branches**. -/
structure IsPlain (i : Instruction) : Prop where
  encodable : i.IsEncodable
  fits : i.FitsImmediate
  straight : ∀ condition width displacement, i ≠ branch condition width displacement

end Host.Instruction

namespace Assembly

/-! ### Bytes of structured code -/

/-- The bytes of instructions one after another. -/
def straightBytes (instructions : List Instruction) : List Byte :=
  instructions.flatMap Instruction.encode

@[simp]
theorem straightBytes_nil : straightBytes [] = [] := rfl

@[simp]
theorem straightBytes_cons (i : Instruction) (is : List Instruction) :
    straightBytes (i :: is) = i.encode ++ straightBytes is := rfl

/-- The bytes of instructions do not depend on what stands before or after them. -/
@[simp]
theorem straightBytes_append (is js : List Instruction) :
    straightBytes (is ++ js) = straightBytes is ++ straightBytes js := List.flatMap_append

/-- The bytes of a branch over a number of bytes. -/
def branchOver (condition : Option Condition) (width : BranchWidth) (distance : Nat) : List Byte :=
  (Instruction.branch condition width (BitVec.ofNat 32 distance)).encode

/-- The number of bytes of a branch. -/
def branchLength (condition : Option Condition) (width : BranchWidth) : Nat :=
  (Instruction.branchOpcode condition width).length + width.bytes

theorem branchLength_pos (condition : Option Condition) (width : BranchWidth) :
    0 < branchLength condition width := by
  cases width <;> simp [branchLength, BranchWidth.bytes]

/-- The length of a branch is known before its distance is. -/
theorem length_branchOver (condition : Option Condition) (width : BranchWidth) (distance : Nat) :
    (branchOver condition width distance).length = branchLength condition width :=
  Instruction.length_encodeBranch _ _ _

/-- The bytes of the tests of a choice, the slow alternative starting `distance` bytes after their
end. -/
def testBytes (distance : Nat) : List (List Instruction × Condition) → List Byte
  | [] => []
  | (instructions, condition) :: tests =>
    straightBytes instructions ++
      branchOver (some condition) .near ((testBytes distance tests).length + distance) ++
      testBytes distance tests

namespace Code

/-- The **machine code** of structured code. -/
def bytes : Code → List Byte
  | straight instructions => straightBytes instructions
  | seq first second => first.bytes ++ second.bytes
  | skip condition width body => branchOver (some condition) width body.bytes.length ++ body.bytes
  | choose tests fast slow =>
    testBytes (fast.bytes.length + branchLength none .near) tests ++ fast.bytes ++
      branchOver none .near slow.bytes.length ++ slow.bytes

/-- Structured code refers to no place outside of it, so its bytes can be put one after another. -/
@[simp]
theorem bytes_append (c d : Code) : (c ++ d).bytes = c.bytes ++ d.bytes := rfl

end Code

/-- The first distance that a branch forward cannot cover. -/
def reach : BranchWidth → Nat
  | .short => 0x80
  | .near => 0x80000000

/-- A branch over a number of bytes that it reaches has an encoding: the number fits its
displacement field as a signed number. -/
theorem isEncodable_branch {width : BranchWidth} {distance : Nat} (h : distance < reach width)
    (condition : Option Condition) :
    (Instruction.branch condition width (BitVec.ofNat 32 distance)).IsEncodable := by
  cases width with
  | near => rfl
  | short =>
    have hall : ∀ d < 0x80, (Instruction.branch none .short (BitVec.ofNat 32 d)).IsEncodable := by
      decide
    exact hall distance h

namespace Code

/-- Whether structured code can be laid out: its instructions are **plain** and its branches
**reach**. -/
def Fits : Code → Prop
  | straight instructions => ∀ i ∈ instructions, i.IsPlain
  | seq first second => first.Fits ∧ second.Fits
  | skip _ width body => body.Fits ∧ body.bytes.length < reach width
  | choose tests fast slow =>
    (∀ t ∈ tests, ∀ i ∈ t.1, i.IsPlain) ∧ fast.Fits ∧ slow.Fits ∧
      (testBytes (fast.bytes.length + branchLength none .near) tests).length +
        (fast.bytes.length + branchLength none .near) < reach .near ∧
      slow.bytes.length < reach .near

end Code

/-! ### Overwriting -/

namespace CodeStream

/-- Overwriting replaces the bytes in the middle by as many others and leaves those on either
side. -/
theorem toList_overwrite {data : Array Byte} {pre mid post field : List Byte}
    (hdata : data.toList = pre ++ mid ++ post) (hlength : field.length = mid.length) :
    (overwrite data pre.length field).toList = pre ++ field ++ post := by
  induction field generalizing data pre mid with
  | nil =>
    obtain rfl : mid = [] := List.length_eq_zero_iff.mp hlength.symm
    simpa [overwrite] using hdata
  | cons b bs ih =>
    obtain ⟨m, ms, rfl⟩ : ∃ m ms, mid = m :: ms := by
      cases mid with
      | nil => cases hlength
      | cons m ms => exact ⟨m, ms, rfl⟩
    have hset : (data.setIfInBounds pre.length b).toList = (pre ++ [b]) ++ ms ++ post := by
      rw [Array.toList_setIfInBounds, hdata]
      simp
    have := @ih (data.setIfInBounds pre.length b) (pre ++ [b]) ms hset (by simpa using hlength)
    simpa [overwrite] using this

/-! ### Patches -/

/-- The displacement field of a branch over a number of bytes that it reaches is that number,
counted from the end of the branch. -/
theorem displacement_eq (p : Patch) {target distance : Nat}
    (htarget : target = p.fieldEnd + distance)
    (hreach : distance < reach p.width) :
    displacement p target = .ok (bytesLE p.width.bytes (BitVec.ofNat 32 distance)) := by
  have hdistance : (target : Int) - (p.fieldEnd : Int) = (distance : Nat) := by omega
  rw [displacement, hdistance]
  cases hwidth : p.width with
  | short =>
    rw [hwidth] at hreach
    simp only [reach] at hreach
    simp only [show -128 ≤ (distance : Int) ∧ (distance : Int) ≤ 127 by omega, and_self, if_true,
      BranchWidth.bytes, bytesLE, BitVec.ofInt_natCast]
    simp [BitVec.setWidth_ofNat_of_le]
  | near =>
    rw [hwidth] at hreach
    simp only [reach] at hreach
    simp only [show -2147483648 ≤ (distance : Int) ∧ (distance : Int) ≤ 2147483647 by omega,
      and_self, if_true, BitVec.ofInt_natCast, BranchWidth.bytes]

/-- Filling in the displacement of a branch over a number of bytes turns an open branch into that
branch, in place, and changes neither labels nor patches. -/
theorem resolve_branch {s : CodeStream} {pre post : List Byte} {condition : Option Condition}
    {width : BranchWidth} {d : BitVec 32} (label : Nat) {target distance : Nat}
    (hdata : s.data.toList = pre ++ (Instruction.branch condition width d).encode ++ post)
    (htarget : target = pre.length + branchLength condition width + distance)
    (hreach : distance < reach width) :
    ∃ t, resolve target s
        ⟨pre.length + (Instruction.branchOpcode condition width).length, width, label⟩ = .ok t ∧
      t.data.toList = pre ++ branchOver condition width distance ++ post ∧
      t.labels = s.labels ∧ t.patches = s.patches := by
  have hfield := displacement_eq
    ⟨pre.length + (Instruction.branchOpcode condition width).length, width, label⟩
    (show target = _ + distance by simp only [htarget, branchLength, Patch.fieldEnd]; omega) hreach
  have hover := @toList_overwrite s.data (pre ++ Instruction.branchOpcode condition width)
    (bytesLE width.bytes d) post (bytesLE width.bytes (BitVec.ofNat 32 distance))
    (by rw [hdata, Instruction.encode, Instruction.encodeBranch_eq]; simp) (by simp)
  rw [List.length_append] at hover
  refine ⟨⟨overwrite s.data (pre.length + (Instruction.branchOpcode condition width).length)
    (bytesLE width.bytes (BitVec.ofNat 32 distance)), s.labels, s.patches⟩, ?_, ?_, rfl, rfl⟩
  · rw [resolve, hfield]
  rw [hover, branchOver, Instruction.encode, Instruction.encodeBranch_eq]
  simp

/-! ### Streams that grow -/

/-- `t` is `s` with more code and more labels, but with the same patches. -/
structure Extends (s t : CodeStream) (code : List Byte) (labels : Nat) : Prop where
  data : t.data.toList = s.data.toList ++ code
  patches : t.patches = s.patches
  labels_size : t.labels.size = s.labels.size + labels
  labels_old : ∀ l, l < s.labels.size → t.labels[l]? = s.labels[l]?

/-- Whether all patches wait for labels that have been created. -/
def PatchesKnown (s : CodeStream) : Prop := ∀ p ∈ s.patches, p.label < s.labels.size

/-- Streams that grow twice grow by both pieces of code and by the labels of both. -/
theorem Extends.trans {s t u : CodeStream} {c d : List Byte} {m n : Nat} (h : Extends s t c m)
    (h' : Extends t u d n) : Extends s u (c ++ d) (m + n) where
  data := by rw [h'.data, h.data, List.append_assoc]
  patches := h'.patches.trans h.patches
  labels_size := by rw [h'.labels_size, h.labels_size, Nat.add_assoc]
  labels_old l hl := by
    rw [h'.labels_old l (by rw [h.labels_size]; omega), h.labels_old l hl]

/-- Code that leaves no patch behind keeps the patches known. -/
theorem Extends.patchesKnown {s t : CodeStream} {c : List Byte} {n : Nat} (h : Extends s t c n)
    (hs : s.PatchesKnown) : t.PatchesKnown := fun p hp => by
  have := hs p (h.patches ▸ hp)
  have := h.labels_size
  omega

/-- New patches are known if their labels have been created by then. -/
theorem PatchesKnown.append {s t : CodeStream} {patches : List Patch} (hs : s.PatchesKnown)
    (hpatches : t.patches = s.patches ++ patches) (hsize : s.labels.size ≤ t.labels.size)
    (h : ∀ p ∈ patches, p.label < t.labels.size) : t.PatchesKnown := fun p hp => by
  rw [hpatches] at hp
  rcases List.mem_append.mp hp with hold | hnew
  · exact Nat.lt_of_lt_of_le (hs p hold) hsize
  · exact h p hnew

/-- Two sequences of commands are run one after the other. -/
theorem run_append (s : CodeStream) (cs ds : List Command) :
    s.run (cs ++ ds) = (s.run cs).bind (·.run ds) := by
  simp only [run, List.foldlM_append]
  rfl

theorem run_append_ok {s t : CodeStream} {cs : List Command} (h : s.run cs = .ok t)
    (ds : List Command) : s.run (cs ++ ds) = t.run ds := by
  rw [run_append, h]
  rfl

theorem run_cons_ok {s t : CodeStream} {c : Command} (h : s.step c = .ok t) (cs : List Command) :
    s.run (c :: cs) = t.run cs := by
  simp only [run, List.foldlM_cons, h]
  rfl

theorem run_single {s t : CodeStream} {c : Command} (h : s.step c = .ok t) : s.run [c] = .ok t :=
  run_cons_ok h []

@[simp]
theorem data_toList_append (s : CodeStream) (code : List Byte) :
    (s.append code).data.toList = s.data.toList ++ code := by
  simp [append]

/-- Instructions append their bytes, and touch neither labels nor patches. -/
theorem run_emit (s : CodeStream) {is : List Instruction} (h : ∀ i ∈ is, i.IsEncodable) :
    ∃ t, s.run (is.map .emit) = .ok t ∧ t.data.toList = s.data.toList ++ straightBytes is ∧
      t.patches = s.patches ∧ t.labels = s.labels := by
  induction is generalizing s with
  | nil => exact ⟨s, rfl, by simp, rfl, rfl⟩
  | cons i is ih =>
    have hi : i.fault? = none := h i List.mem_cons_self
    have hstep : s.step (.emit i) = .ok (s.append i.encode) := by
      simp only [step, emit, Instruction.assemble, hi]
    obtain ⟨t, ht, hdata, hpatches, hlabels⟩ :=
      ih (s.append i.encode) fun j hj => h j (List.mem_cons_of_mem _ hj)
    refine ⟨t, by rw [List.map_cons, run_cons_ok hstep, ht], ?_, hpatches, hlabels⟩
    rw [hdata, data_toList_append, straightBytes_cons, List.append_assoc]

/-- Plain instructions append their bytes. All of them have an encoding, so none of them is a
fault. -/
theorem run_straight (s : CodeStream) {is : List Instruction} (h : ∀ i ∈ is, i.IsPlain) :
    ∃ t, s.run (is.map .emit) = .ok t ∧ t.data.toList = s.data.toList ++ straightBytes is ∧
      t.patches = s.patches ∧ t.labels = s.labels :=
  s.run_emit fun i hi => (h i hi).encodable

/-- A branch to a label that is not bound is appended with a displacement of zero, and leaves a
patch behind that says where its field is. -/
theorem step_branch_unbound {s : CodeStream} {label : Nat} (h : s.labels[label]? = some none)
    (condition : Option Condition) (width : BranchWidth) :
    ∃ t, s.step (.branch condition width label) = .ok t ∧
      t.data.toList = s.data.toList ++ (Instruction.branch condition width 0).encode ∧
      t.patches = s.patches ++ [⟨s.data.toList.length +
        (Instruction.branchOpcode condition width).length, width, label⟩] ∧
      t.labels = s.labels := by
  have htarget : (s.append (Instruction.branch condition width 0).encode).target? label = none := by
    simp [target?, append, h]
  have hoffset : (s.append (Instruction.branch condition width 0).encode).position - width.bytes =
      s.data.toList.length + (Instruction.branchOpcode condition width).length := by
    have := Instruction.length_encodeBranch condition width 0
    rw [position, ← Array.length_toList, data_toList_append, List.length_append, Instruction.encode]
    omega
  refine ⟨{ s.append (Instruction.branch condition width 0).encode with
    patches := s.patches ++ [⟨s.data.toList.length +
      (Instruction.branchOpcode condition width).length, width, label⟩] }, ?_, ?_, rfl, rfl⟩
  · simp only [step, branch, htarget, hoffset]
    rfl
  · exact data_toList_append _ _

/-! ### Labels -/

/-- A new label has the first free number and is not bound. -/
theorem run_createLabel (s : CodeStream) (cs : List Command) :
    s.run (.createLabel :: cs) =
      { s with labels := s.labels.push none }.run cs := rfl

/-- **Binding** a label fills in the patches that wait for it, in their order, and keeps the others
as they are. -/
theorem step_bind {s t : CodeStream} {label : Nat} {earlier waiting later : List Patch}
    (hlabel : s.labels[label]? = some none) (hpatches : s.patches = earlier ++ waiting ++ later)
    (hearlier : ∀ p ∈ earlier, p.label ≠ label) (hwaiting : ∀ p ∈ waiting, p.label = label)
    (hlater : ∀ p ∈ later, p.label ≠ label)
    (hresolve : waiting.foldlM (resolve s.data.size)
      ⟨s.data, s.labels.setIfInBounds label (some s.data.size), earlier ++ later⟩ = .ok t) :
    s.step (.bind label) = .ok t := by
  have htarget : s.target? label = none := by simp [target?, hlabel]
  have hready : s.patches.filter (·.label = label) = waiting := by
    rw [hpatches, List.filter_append, List.filter_append,
      List.filter_eq_nil_iff.mpr fun p hp => by simpa using hearlier p hp,
      List.filter_eq_self.mpr fun p hp => by simpa using hwaiting p hp,
      List.filter_eq_nil_iff.mpr fun p hp => by simpa using hlater p hp, List.nil_append,
      List.append_nil]
  have hkept : s.patches.filter (·.label ≠ label) = earlier ++ later := by
    rw [hpatches, List.filter_append, List.filter_append,
      List.filter_eq_self.mpr fun p hp => by simpa using hearlier p hp,
      List.filter_eq_nil_iff.mpr fun p hp => by simpa using hwaiting p hp,
      List.filter_eq_self.mpr fun p hp => by simpa using hlater p hp, List.append_nil]
  simp only [step, bind, htarget, Option.isSome_none, Bool.false_eq_true, if_false, hready, hkept,
    position]
  exact hresolve

/-! ### Tests -/

/-- The bytes of the tests of a choice whose displacements are not known yet. -/
def openTestBytes : List (List Instruction × Condition) → List Byte
  | [] => []
  | (instructions, condition) :: tests =>
    straightBytes instructions ++ (Instruction.branch (some condition) .near 0).encode ++
      openTestBytes tests

/-- The patches of the tests of a choice that start at an offset. -/
def testPatches (label : Nat) : (offset : Nat) → List (List Instruction × Condition) → List Patch
  | _, [] => []
  | offset, (instructions, condition) :: tests =>
    ⟨offset + (straightBytes instructions).length +
        (Instruction.branchOpcode (some condition) .near).length, .near, label⟩ ::
      testPatches label
        (offset + (straightBytes instructions).length + branchLength (some condition) .near) tests

/-- Open tests are as long as tests whose branches are filled in. -/
theorem length_openTestBytes (distance : Nat) (tests : List (List Instruction × Condition)) :
    (openTestBytes tests).length = (testBytes distance tests).length := by
  induction tests with
  | nil => rfl
  | cons t tests ih =>
    obtain ⟨is, c⟩ := t
    simp only [openTestBytes, testBytes, List.length_append, ih, length_branchOver]
    rw [Instruction.encode, Instruction.length_encodeBranch, branchLength]

/-- All branches of the tests of a choice lead to one label. -/
theorem label_of_mem_testPatches {label offset : Nat} {tests : List (List Instruction × Condition)}
    {p : Patch} (hp : p ∈ testPatches label offset tests) : p.label = label := by
  induction tests generalizing offset with
  | nil => cases hp
  | cons t tests ih =>
    obtain ⟨is, c⟩ := t
    rcases List.mem_cons.mp hp with rfl | hp
    · rfl
    · exact ih hp

/-- The tests of a choice leave their branches open, one patch for each of them, since the slow
alternative is laid out last. -/
theorem run_testCommands {s : CodeStream} {label : Nat} (hlabel : s.labels[label]? = some none)
    {tests : List (List Instruction × Condition)} (h : ∀ t ∈ tests, ∀ i ∈ t.1, i.IsPlain) :
    ∃ t, s.run (Code.testCommands label tests) = .ok t ∧
      t.data.toList = s.data.toList ++ openTestBytes tests ∧
      t.patches = s.patches ++ testPatches label s.data.toList.length tests ∧
      t.labels = s.labels := by
  induction tests generalizing s with
  | nil => exact ⟨s, rfl, by simp [openTestBytes], by simp [testPatches], rfl⟩
  | cons test tests ih =>
    obtain ⟨is, c⟩ := test
    obtain ⟨t, ht, htdata, htpatches, htlabels⟩ := s.run_straight (h (is, c) List.mem_cons_self)
    obtain ⟨u, hu, hudata, hupatches, hulabels⟩ :=
      step_branch_unbound (s := t) (by rw [htlabels]; exact hlabel) (some c) .near
    obtain ⟨v, hv, hvdata, hvpatches, hvlabels⟩ :=
      ih (s := u) (by rw [hulabels, htlabels]; exact hlabel)
        fun t' ht' => h t' (List.mem_cons_of_mem _ ht')
    have hlength : u.data.toList.length =
        s.data.toList.length + (straightBytes is).length + branchLength (some c) .near := by
      rw [hudata, htdata, List.length_append, List.length_append, Instruction.encode,
        Instruction.length_encodeBranch, branchLength]
    refine ⟨v, ?_, ?_, ?_, hvlabels.trans (hulabels.trans htlabels)⟩
    · rw [Code.testCommands, run_append_ok ht]
      exact (run_cons_ok hu _).trans hv
    · rw [hvdata, hudata, htdata, openTestBytes]
      simp only [List.append_assoc]
    · rw [hvpatches, hupatches, htpatches, testPatches, hlength, htdata, List.length_append]
      simp only [List.append_assoc, List.cons_append, List.nil_append]

/-- Filling in the open branches of the tests of a choice, from the first to the last, makes each of
them lead over the tests after it and over the fast alternative. -/
theorem foldlM_resolve_testPatches {s : CodeStream} (label : Nat) {target distance : Nat}
    {pre post : List Byte} {tests : List (List Instruction × Condition)}
    (hdata : s.data.toList = pre ++ openTestBytes tests ++ post)
    (htarget : target = pre.length + (openTestBytes tests).length + distance)
    (hreach : (openTestBytes tests).length + distance < reach .near) :
    ∃ t, (testPatches label pre.length tests).foldlM (resolve target) s = .ok t ∧
      t.data.toList = pre ++ testBytes distance tests ++ post ∧
      t.labels = s.labels ∧ t.patches = s.patches := by
  induction tests generalizing s pre with
  | nil => exact ⟨s, rfl, by simpa [openTestBytes, testBytes] using hdata, rfl, rfl⟩
  | cons test tests ih =>
    obtain ⟨is, c⟩ := test
    have hlength : (openTestBytes ((is, c) :: tests)).length =
        (straightBytes is).length + branchLength (some c) .near + (openTestBytes tests).length := by
      simp only [openTestBytes, List.length_append, Instruction.encode,
        Instruction.length_encodeBranch, branchLength]
    rw [hlength] at htarget hreach
    obtain ⟨t, ht, htdata, htlabels, htpatches⟩ := resolve_branch label
      (show s.data.toList = pre ++ straightBytes is ++
        (Instruction.branch (some c) .near 0).encode ++
        (openTestBytes tests ++ post) by rw [hdata, openTestBytes]; simp)
      (show target = _ + ((openTestBytes tests).length + distance) by
        rw [List.length_append, htarget]; omega) (by omega)
    -- the other tests start behind the first, as far from the target as before
    obtain ⟨u, hu, hudata, hulabels, hupatches⟩ :=
      ih (show t.data.toList = pre ++ straightBytes is ++
        branchOver (some c) .near ((openTestBytes tests).length + distance) ++
          openTestBytes tests ++ post by
      rw [htdata]; simp) (by simp only [List.length_append, length_branchOver]; omega) (by omega)
    refine ⟨u, ?_, ?_, hulabels.trans htlabels, hupatches.trans htpatches⟩
    · simp only [List.length_append, length_branchOver] at ht hu
      rw [testPatches, List.foldlM_cons, ht]
      exact hu
    · rw [hudata, testBytes, length_openTestBytes distance]
      simp

/-! ### Closing branches -/

/-- Binding the label of one open branch closes it: it then leads over all bytes that have been
appended since. -/
theorem bind_branch {s : CodeStream} {condition : Option Condition} {width : BranchWidth}
    {label : Nat} {pre post : List Byte} {patches : List Patch}
    (hlabel : s.labels[label]? = some none)
    (hdata : s.data.toList = pre ++ (Instruction.branch condition width 0).encode ++ post)
    (hpatches : s.patches =
      patches ++ [⟨pre.length + (Instruction.branchOpcode condition width).length, width, label⟩])
    (hothers : ∀ p ∈ patches, p.label ≠ label) (hreach : post.length < reach width) :
    ∃ t, s.step (.bind label) = .ok t ∧
      t.data.toList = pre ++ branchOver condition width post.length ++ post ∧
      t.patches = patches ∧ t.labels = s.labels.setIfInBounds label (some s.data.size) := by
  have hposition : s.data.size = pre.length + branchLength condition width + post.length := by
    rw [← Array.length_toList, hdata, List.length_append, List.length_append, Instruction.encode,
      Instruction.length_encodeBranch, branchLength]
  obtain ⟨t, ht, htdata, htlabels, htpatches⟩ := resolve_branch label
    (s := ⟨s.data, s.labels.setIfInBounds label (some s.data.size), patches ++ []⟩)
    hdata hposition hreach
  refine ⟨t, ?_, htdata, htpatches.trans (List.append_nil _), htlabels⟩
  refine step_bind hlabel (hpatches.trans (List.append_nil _).symm) hothers
    (fun p hp => by rw [List.mem_singleton.mp hp]) (fun p hp => by cases hp) ?_
  rw [List.foldlM_cons, ht]
  rfl

/-- Binding the label of open tests closes them all, while the patches before and after them stay
open. -/
theorem bind_tests {s : CodeStream} {tests : List (List Instruction × Condition)}
    {label : Nat} {pre post : List Byte} {earlier later : List Patch}
    (hlabel : s.labels[label]? = some none)
    (hdata : s.data.toList = pre ++ openTestBytes tests ++ post)
    (hpatches : s.patches = earlier ++ testPatches label pre.length tests ++ later)
    (hearlier : ∀ p ∈ earlier, p.label ≠ label) (hlater : ∀ p ∈ later, p.label ≠ label)
    (hreach : (openTestBytes tests).length + post.length < reach .near) :
    ∃ t, s.step (.bind label) = .ok t ∧
      t.data.toList = pre ++ testBytes post.length tests ++ post ∧
      t.patches = earlier ++ later ∧
      t.labels = s.labels.setIfInBounds label (some s.data.size) := by
  have hposition : s.data.size = pre.length + (openTestBytes tests).length + post.length := by
    rw [← Array.length_toList, hdata, List.length_append, List.length_append]
  obtain ⟨t, ht, htdata, htlabels, htpatches⟩ := foldlM_resolve_testPatches label
    (s := ⟨s.data, s.labels.setIfInBounds label (some s.data.size), earlier ++ later⟩)
    hdata hposition hreach
  exact ⟨t, step_bind hlabel hpatches hearlier (fun p hp => label_of_mem_testPatches hp) hlater ht,
    htdata, htpatches, htlabels⟩

/-! ### Structured code -/

/-- Whether the commands of the code run wherever the patches are known, and append its bytes. -/
def LaysOut (code : Code) : Prop :=
  ∀ s : CodeStream, s.PatchesKnown →
    ∃ t, s.run (code.commands s.labels.size) = .ok t ∧ Extends s t code.bytes code.labels

/-- Straight code is laid out by appending its instructions. -/
theorem laysOut_straight {is : List Instruction} (his : (Code.straight is).Fits) :
    LaysOut (.straight is) := by
  intro s _
  obtain ⟨t, ht, hdata, hpatches, hlabels⟩ := s.run_straight his
  exact ⟨t, ht, hdata, hpatches, by rw [hlabels]; rfl, fun l _ => by rw [hlabels]⟩

/-- Two pieces of code are laid out one after the other. The second one starts with the labels that
the first one has created. -/
theorem LaysOut.seq {first second : Code} (hfirst : LaysOut first) (hsecond : LaysOut second) :
    LaysOut (.seq first second) := by
  intro s hs
  obtain ⟨t, ht, hst⟩ := hfirst s hs
  obtain ⟨u, hu, htu⟩ := hsecond t (hst.patchesKnown hs)
  rw [hst.labels_size] at hu
  exact ⟨u, by rw [Code.commands, run_append_ok ht, hu], hst.trans htu⟩

/-- Skipped code: the branch over it stays open while the code is laid out, and is closed by the
label after it. -/
theorem LaysOut.skip {condition : Condition} {width : BranchWidth} {body : Code}
    (hbody : LaysOut body) (hreach : body.bytes.length < reach width) :
    LaysOut (.skip condition width body) := by
  intro s hs
  have hold : ∀ p ∈ s.patches, p.label ≠ s.labels.size := fun p hp => Nat.ne_of_lt (hs p hp)
  -- the open branch, under a fresh label
  obtain ⟨t, ht, htdata, htpatches, htlabels⟩ :=
    step_branch_unbound (show ({ s with labels := s.labels.push none } : CodeStream).labels[
      s.labels.size]? = some none from Array.getElem?_push_size) (some condition) width
  have htsize : t.labels.size = s.labels.size + 1 := by rw [htlabels, Array.size_push]
  have htknown : t.PatchesKnown := hs.append htpatches (by omega) fun p hp => by
    rw [List.mem_singleton.mp hp, htsize]
    exact Nat.lt_succ_self _
  obtain ⟨u, hu, htu⟩ := hbody t htknown
  rw [htsize] at hu
  -- the label after the body closes it
  obtain ⟨v, hv, hvdata, hvpatches, hvlabels⟩ := bind_branch (s := u)
    (by rw [htu.labels_old _ (by omega), htlabels, Array.getElem?_push_size])
    (htu.data.trans (congrArg (· ++ body.bytes) htdata)) (htu.patches.trans htpatches) hold hreach
  refine ⟨v, ?_, by rw [hvdata, Code.bytes, List.append_assoc], hvpatches, ?_, fun l hl => ?_⟩
  · rw [Code.commands, List.cons_append, run_createLabel, List.cons_append, run_cons_ok ht,
      run_append_ok hu, run_single hv]
  · rw [hvlabels, Array.size_setIfInBounds, htu.labels_size, htsize, Code.labels, Nat.add_assoc]
  · rw [hvlabels, Array.getElem?_setIfInBounds_ne (by omega), htu.labels_old l (by omega),
      htlabels, Array.getElem?_push_lt hl, Array.getElem?_eq_getElem hl]

/-- The first half of two alternatives: the tests and the fast alternative are laid out, the label
of the slow alternative has closed the tests, and only the branch over it is still open. -/
theorem run_fastAlternative {s : CodeStream} {tests : List (List Instruction × Condition)}
    {fast : Code} (hs : s.PatchesKnown) (htests : ∀ t ∈ tests, ∀ i ∈ t.1, i.IsPlain)
    (hfast : LaysOut fast)
    (hreach : (testBytes (fast.bytes.length + branchLength none .near) tests).length +
      (fast.bytes.length + branchLength none .near) < reach .near) :
    ∃ t, ({ s with labels := (s.labels.push none).push none } : CodeStream).run
        (Code.testCommands s.labels.size tests ++ (fast.commands (s.labels.size + 2) ++
          [.branch none .near (s.labels.size + 1), .bind s.labels.size])) = .ok t ∧
      t.data.toList = s.data.toList ++
        testBytes (fast.bytes.length + branchLength none .near) tests ++ fast.bytes ++
        (Instruction.branch none .near 0).encode ∧
      t.patches = s.patches ++ [⟨(s.data.toList ++
          testBytes (fast.bytes.length + branchLength none .near) tests ++ fast.bytes).length +
        (Instruction.branchOpcode none .near).length, .near, s.labels.size + 1⟩] ∧
      t.labels.size = s.labels.size + 2 + fast.labels ∧
      t.labels[s.labels.size + 1]? = some none ∧
      ∀ l, l < s.labels.size → t.labels[l]? = s.labels[l]? := by
  have hpushed : ((s.labels.push none).push none)[s.labels.size]? = some none := by
    rw [Array.getElem?_push_lt (by simp), ← Array.getElem?_eq_getElem, Array.getElem?_push_size]
  -- the tests and the fast alternative, with all branches open
  obtain ⟨t, ht, htdata, htpatches, htlabels⟩ := run_testCommands
    (s := { s with labels := (s.labels.push none).push none }) hpushed htests
  have htsize : t.labels.size = s.labels.size + 2 := by
    rw [htlabels, Array.size_push, Array.size_push]
  have htknown : t.PatchesKnown := hs.append htpatches (by omega) fun p hp => by
    rw [label_of_mem_testPatches hp]
    omega
  obtain ⟨u, hu, htu⟩ := hfast t htknown
  rw [htsize] at hu
  have hulast : u.labels[s.labels.size + 1]? = some none := by
    rw [htu.labels_old _ (by omega), htlabels]
    have hlast : ((s.labels.push none).push none)[(s.labels.push none).size]? = some none :=
      Array.getElem?_push_size
    simpa using hlast
  have hufirst : u.labels[s.labels.size]? = some none := by
    rw [htu.labels_old _ (by omega), htlabels, hpushed]
  -- the branch over the slow alternative
  obtain ⟨v, hv, hvdata, hvpatches, hvlabels⟩ := step_branch_unbound hulast none .near
  have hvdata' : v.data.toList = s.data.toList ++ openTestBytes tests ++
      (fast.bytes ++ (Instruction.branch none .near 0).encode) := by
    rw [hvdata, htu.data, htdata, List.append_assoc _ fast.bytes]
  have hpost : (fast.bytes ++ (Instruction.branch none .near 0).encode).length =
      fast.bytes.length + branchLength none .near := by
    rw [List.length_append, Instruction.encode, Instruction.length_encodeBranch, branchLength]
  -- the label of the slow alternative closes the tests, and no other branch
  obtain ⟨w, hw, hwdata, hwpatches, hwlabels⟩ := bind_tests
    (show v.labels[s.labels.size]? = some none by rw [hvlabels, hufirst]) hvdata'
    (by rw [hvpatches, htu.patches, htpatches]) (fun p hp => Nat.ne_of_lt (hs p hp))
    (fun p hp => by rw [List.mem_singleton.mp hp]; exact Nat.succ_ne_self _)
    (by rw [length_openTestBytes, hpost]; exact hreach)
  rw [hpost] at hwdata
  have hulength : u.data.toList.length = (s.data.toList ++
      testBytes (fast.bytes.length + branchLength none .near) tests ++ fast.bytes).length := by
    rw [htu.data, htdata]
    simp only [List.length_append,
      length_openTestBytes (fast.bytes.length + branchLength none .near)]
  refine ⟨w, ?_, by rw [hwdata, ← List.append_assoc _ fast.bytes], by rw [hwpatches, hulength],
    ?_, ?_, fun l hl => ?_⟩
  · rw [run_append_ok ht, run_append_ok hu, run_cons_ok hv, run_single hw]
  · rw [hwlabels, Array.size_setIfInBounds, hvlabels, htu.labels_size, htsize]
  · rw [hwlabels, Array.getElem?_setIfInBounds_ne (by omega), hvlabels, hulast]
  · rw [hwlabels, Array.getElem?_setIfInBounds_ne (by omega), hvlabels,
      htu.labels_old l (by omega), htlabels,
      Array.getElem?_push_lt (by rw [Array.size_push]; omega), ← Array.getElem?_eq_getElem,
      Array.getElem?_push_lt hl, Array.getElem?_eq_getElem hl]

/-- Two alternatives: the branch over the slow one is open while that is laid out, and the label at
the end closes it. -/
theorem LaysOut.choose {tests : List (List Instruction × Condition)} {fast slow : Code}
    (htests : ∀ t ∈ tests, ∀ i ∈ t.1, i.IsPlain) (hfast : LaysOut fast) (hslow : LaysOut slow)
    (hreach : (testBytes (fast.bytes.length + branchLength none .near) tests).length +
      (fast.bytes.length + branchLength none .near) < reach .near)
    (hslowReach : slow.bytes.length < reach .near) :
    LaysOut (.choose tests fast slow) := by
  intro s hs
  obtain ⟨t, ht, htdata, htpatches, htsize, htlast, htold⟩ :=
    run_fastAlternative hs htests hfast hreach
  have htknown : t.PatchesKnown := hs.append htpatches (by omega) fun p hp => by
    rw [List.mem_singleton.mp hp, htsize]
    simp only
    omega
  obtain ⟨u, hu, htu⟩ := hslow t htknown
  rw [htsize] at hu
  -- the label after the slow alternative closes the branch over it
  obtain ⟨v, hv, hvdata, hvpatches, hvlabels⟩ := bind_branch
    (show u.labels[s.labels.size + 1]? = some none by rw [htu.labels_old _ (by omega), htlast])
    (by rw [htu.data, htdata]) (by rw [htu.patches, htpatches])
    (fun p hp => by have := hs p hp; omega) hslowReach
  refine ⟨v, ?_, ?_, hvpatches, ?_, fun l hl => ?_⟩
  · have hsplit : (Code.choose tests fast slow).commands s.labels.size =
        .createLabel :: .createLabel :: ((Code.testCommands s.labels.size tests ++
          (fast.commands (s.labels.size + 2) ++
            [.branch none .near (s.labels.size + 1), .bind s.labels.size])) ++
          (slow.commands (s.labels.size + 2 + fast.labels) ++ [.bind (s.labels.size + 1)])) := by
      simp only [Code.commands, List.cons_append, List.append_assoc, List.nil_append]
    rw [hsplit, run_createLabel, run_createLabel, run_append_ok ht, run_append_ok hu,
      run_single hv]
  · rw [hvdata, Code.bytes]
    simp only [List.append_assoc]
  · rw [hvlabels, Array.size_setIfInBounds, htu.labels_size, htsize, Code.labels]
    omega
  · rw [hvlabels, Array.getElem?_setIfInBounds_ne (by omega), htu.labels_old l (by omega),
      htold l hl]

/-- **Laying out** structured code appends its bytes, by induction on the code, with one lemma for
every pattern. -/
theorem run_commands {code : Code} (hcode : code.Fits) {s : CodeStream} (hs : s.PatchesKnown) :
    ∃ t, s.run (code.commands s.labels.size) = .ok t ∧ Extends s t code.bytes code.labels := by
  suffices hlays : LaysOut code from hlays s hs
  clear hs
  induction code with
  | straight is => exact laysOut_straight hcode
  | seq first second ihf ihs => exact (ihf hcode.1).seq (ihs hcode.2)
  | skip condition width body ih => exact (ih hcode.1).skip hcode.2
  | choose tests fast slow ihf ihs =>
    obtain ⟨htests, hfast, hslow, hreach, hslowReach⟩ := hcode
    exact (ihf hfast).choose htests (ihs hslow) hreach hslowReach

end CodeStream

end Assembly

end Dynarec
