import Dynarec.Proofs.Assembly.Layout

/-!
# Checking code

Two checks of structured code can be evaluated. `Code.fits` looks at every instruction and compares
the number of instructions between the two ends of a branch, fifteen bytes each, with what the
branch reaches; code that passes can be laid out (`Code.fits_of_check`). `Code.keepsStack` follows
the number of words on the host stack through every piece without branches.

Code that passes both is **tame**. `Code.Tame` also says how long the code is at most, so that tame
pieces make tame code.
-/

namespace Dynarec

open Host (Instruction Condition)

namespace Host.Instruction

/-- Checks whether an instruction may stand in code without branches. -/
def isPlain (i : Instruction) : Bool :=
  i.fault?.isNone &&
    match i with
    | alu _ .qword _ (.immediate v) | test .qword _ (.immediate v) => fitsSigned 32 v
    | branch _ _ _ => false
    | _ => true

theorem isPlain_of_check {i : Instruction} (h : i.isPlain = true) : i.IsPlain := by
  obtain ⟨hencodable, hshape⟩ := (Bool.and_eq_true _ _).mp h
  refine ⟨Option.isNone_iff_eq_none.mp hencodable, ?_, ?_⟩
  · cases i with
    | alu op size dst src | test size dst src =>
      cases size with
      | qword =>
        cases src with
        | register r => trivial
        | immediate v => exact hshape
      | _ => trivial
    | _ => trivial
  · rintro condition width displacement rfl
    exact Bool.false_ne_true hshape

end Host.Instruction

namespace Assembly

open Host.Instruction (maxLength)

/-- Instructions without branches have at most fifteen bytes each. -/
theorem length_straightBytes_le (is : List Instruction) :
    (straightBytes is).length ≤ maxLength * is.length := by
  induction is with
  | nil => simp
  | cons i is ih =>
    have hi : i.encode.length ≤ maxLength := i.length_le
    rw [straightBytes_cons, List.length_append, List.length_cons, Nat.mul_succ]
    omega

/-- A branch has at most six bytes: two for the opcode, and four for the displacement. -/
theorem branchLength_le (condition : Option Condition) (width : BranchWidth) :
    branchLength condition width ≤ 6 := by
  have hopcode := Instruction.length_branchOpcode_le condition width
  have hwidth : width.bytes ≤ 4 := by cases width <;> decide
  rw [branchLength]
  omega

/-- A bound on the number of bytes of the tests of a choice. -/
def testsBound : List (List Instruction × Condition) → Nat
  | [] => 0
  | (is, _) :: tests => maxLength * is.length + 6 + testsBound tests

/-- Tests are no longer than their instructions and branches can be. -/
theorem length_testBytes_le (distance : Nat) (tests : List (List Instruction × Condition)) :
    (testBytes distance tests).length ≤ testsBound tests := by
  induction tests with
  | nil => simp [testBytes]
  | cons test tests ih =>
    obtain ⟨is, condition⟩ := test
    have his := length_straightBytes_le is
    have hbranch := branchLength_le (some condition) .near
    rw [testBytes, testsBound, List.length_append, List.length_append, length_branchOver]
    omega

namespace Code

/-- A **bound on the number of bytes** of structured code. -/
def bound : Code → Nat
  | straight is => maxLength * is.length
  | seq first second => first.bound + second.bound
  | skip _ _ body => 6 + body.bound
  | choose tests fast slow => testsBound tests + fast.bound + 6 + slow.bound

/-- Structured code is **no longer than its bound**, which is computed without encoding it. The
induction is on the code. -/
theorem length_bytes_le (c : Code) : c.bytes.length ≤ c.bound := by
  induction c with
  | straight is => exact length_straightBytes_le is
  | seq first second ihf ihs =>
    rw [bytes, bound, List.length_append]
    omega
  | skip condition width body ih =>
    have hbranch := branchLength_le (some condition) width
    rw [bytes, bound, List.length_append, length_branchOver]
    omega
  | choose tests fast slow ihf ihs =>
    have htests := length_testBytes_le (fast.bytes.length + branchLength none .near) tests
    have hbranch := branchLength_le none .near
    rw [bytes, bound, List.length_append, List.length_append, List.length_append, length_branchOver]
    omega

/-- **Checks** that structured code can be laid out. -/
def fits : Code → Bool
  | straight is => is.all Instruction.isPlain
  | seq first second => first.fits && second.fits
  | skip _ width body => body.fits && decide (body.bound < reach width)
  | choose tests fast slow =>
    tests.all (fun t => t.1.all Instruction.isPlain) && fast.fits && slow.fits &&
      decide (testsBound tests + fast.bound + 6 < reach .near) && decide (slow.bound < reach .near)

/-- The check of the bounds is enough for code to fit: if the bound of what a branch skips is in its
reach, then what it skips is. -/
theorem fits_of_check {c : Code} (h : c.fits = true) : c.Fits := by
  induction c with
  | straight is => exact fun i hi => Instruction.isPlain_of_check (List.all_eq_true.mp h i hi)
  | seq first second ihf ihs =>
    rw [fits, Bool.and_eq_true] at h
    exact ⟨ihf h.1, ihs h.2⟩
  | skip condition width body ih =>
    rw [fits, Bool.and_eq_true, decide_eq_true_eq] at h
    exact ⟨ih h.1, Nat.lt_of_le_of_lt body.length_bytes_le h.2⟩
  | choose tests fast slow ihf ihs =>
    simp only [fits, Bool.and_eq_true, decide_eq_true_eq, List.all_eq_true] at h
    obtain ⟨⟨⟨⟨htests, hfast⟩, hslow⟩, hreach⟩, hreach'⟩ := h
    have htestBytes := length_testBytes_le (fast.bytes.length + branchLength none .near) tests
    have hfastBytes := fast.length_bytes_le
    have hbranch := branchLength_le none .near
    exact ⟨fun t ht i hi => Instruction.isPlain_of_check (htests t ht i hi), ihf hfast, ihs hslow,
      by omega, Nat.lt_of_le_of_lt slow.length_bytes_le hreach'⟩

end Code

end Assembly

/-! ### The host stack -/

namespace Host.Instruction

/-- How many words are on the host stack **after** an instruction that is executed with `depth`
words on it. Nothing is pushed on top of another word, a handler is called with one word, and there
is none left on return. -/
def depthAfter? (depth : Nat) : Instruction → Option Nat
  | pushFlags | push _ => if depth = 0 then some 1 else none
  | popFlags | pop _ => if depth = 1 then some 0 else none
  | call _ => if depth = 1 then some 1 else none
  | ret => if depth = 0 then some 0 else none
  | _ => some depth

/-- What an instruction does to the depth of the host stack does not depend on its constants. -/
@[simp]
theorem depthAfter?_canonical (depth : Nat) (i : Instruction) :
    i.canonical.depthAfter? depth = i.depthAfter? depth := by
  cases i with
  | mov size dst src | alu op size dst src | test size dst src => cases src <;> rfl
  | _ => rfl

end Host.Instruction

namespace Assembly

/-- How many words are on the host stack after instructions. -/
def depthAfter? (depth : Nat) (is : List Instruction) : Option Nat :=
  is.foldlM Instruction.depthAfter? depth

/-- Whether instructions start and end with an **empty host stack**. -/
def keepsStack (is : List Instruction) : Bool := depthAfter? 0 is == some 0

/-- Instructions that keep the host stack can be put in front of others. -/
theorem keepsStack_append {is js : List Instruction} (h : keepsStack is = true) :
    keepsStack (is ++ js) = keepsStack js := by
  have his : is.foldlM Instruction.depthAfter? 0 = some 0 := eq_of_beq h
  rw [keepsStack, depthAfter?, List.foldlM_append, his]
  rfl

/-- Whether all pieces without branches start and end with an empty host stack. -/
def Code.keepsStack : Code → Bool
  | straight is => Assembly.keepsStack is
  | seq first second => first.keepsStack && second.keepsStack
  | skip _ _ body => body.keepsStack
  | choose tests fast slow =>
    tests.all (fun t => Assembly.keepsStack t.1) && fast.keepsStack && slow.keepsStack

/-! ### Tame code -/

/-- Instructions without branches that can be **laid out** and keep the host stack, at most `n` of
them. -/
structure Tame (n : Nat) (is : List Instruction) : Prop where
  plain : is.all Instruction.isPlain = true
  keepsStack : keepsStack is = true
  length_le : is.length ≤ n

/-- Code that can be **laid out** and keeps the host stack, of at most `n` bytes. -/
structure Code.Tame (n : Nat) (c : Code) : Prop where
  fits : c.fits = true
  keepsStack : c.keepsStack = true
  bound_le : c.bound ≤ n

/-- Tame instructions are tame one after another. -/
theorem Tame.append {m n : Nat} {is js : List Instruction} (h : Tame m is) (h' : Tame n js) :
    Tame (m + n) (is ++ js) where
  plain := by rw [List.all_append, h.plain, h'.plain, Bool.and_self]
  keepsStack := by rw [keepsStack_append h.keepsStack, h'.keepsStack]
  length_le := by
    rw [List.length_append]
    exact Nat.add_le_add h.length_le h'.length_le

/-- Tame instructions are tame code, of at most fifteen bytes each. -/
theorem Tame.straight {n : Nat} {is : List Instruction} (h : Tame n is) :
    (Code.straight is).Tame (Instruction.maxLength * n) where
  fits := h.plain
  keepsStack := h.keepsStack
  bound_le := Nat.mul_le_mul_left _ h.length_le

namespace Code

/-- Tame code is tame one piece after another, and the bounds add up. -/
theorem Tame.append {m n : Nat} {c d : Code} (h : c.Tame m) (h' : d.Tame n) :
    (c ++ d).Tame (m + n) where
  fits := Bool.and_eq_true_iff.mpr ⟨h.fits, h'.fits⟩
  keepsStack := Bool.and_eq_true_iff.mpr ⟨h.keepsStack, h'.keepsStack⟩
  bound_le := Nat.add_le_add h.bound_le h'.bound_le

/-- A bound of tame code can be made larger. -/
theorem Tame.mono {m n : Nat} {c : Code} (h : c.Tame m) (hle : m ≤ n) : c.Tame n :=
  ⟨h.fits, h.keepsStack, Nat.le_trans h.bound_le hle⟩

/-- Skipping tame code that is short enough is tame, with the six bytes that the branch over it may
take. -/
theorem Tame.skip {n : Nat} {c : Code} (h : c.Tame n) (condition : Condition) {width : BranchWidth}
    (hreach : n < reach width) : (Code.skip condition width c).Tame (6 + n) where
  fits := Bool.and_eq_true_iff.mpr
    ⟨h.fits, decide_eq_true (Nat.lt_of_le_of_lt h.bound_le hreach)⟩
  keepsStack := h.keepsStack
  bound_le := Nat.add_le_add_left h.bound_le 6

/-- The layout of **tame code** fits, and is no longer than its bound: this is what becomes of the
checks that the bounds of its pieces are computed for. -/
theorem Tame.layout {n : Nat} {c : Code} (h : c.Tame n) : c.Fits ∧ c.bytes.length ≤ n :=
  ⟨fits_of_check h.fits, Nat.le_trans c.length_bytes_le h.bound_le⟩

end Code

end Assembly

end Dynarec
