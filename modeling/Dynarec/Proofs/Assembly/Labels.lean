import Dynarec.Proofs.Assembly.Links

/-!
# Labels of structured code

The layout of structured code creates its labels one after another, from the first free number on,
and binds each of them exactly once (`Code.count_bind_commands`). It names no label that has not
been created by then (`Code.ownFrom_commands`), so a stream knows every label that it is asked for.

`Commands.Finishes` collects what it takes for a stream to carry out commands to the end: nothing is
out of range or a fault on the way, and no branch is left open. Code that fits finishes
(`CodeStream.finishes_commands`).
-/

namespace Dynarec

open Host (Instruction Condition)

namespace Assembly

/-! ### Labels that are known -/

namespace Commands

/-- Whether commands only use labels below `known` and labels that they have **created before**,
which are numbered from `known` on. -/
def OwnFrom : (known : Nat) → List Command → Prop
  | _, [] => True
  | known, .createLabel :: cs => OwnFrom (known + 1) cs
  | known, .bind label :: cs => label < known ∧ OwnFrom known cs
  | known, .emit _ :: cs => OwnFrom known cs
  | known, .branch _ _ label :: cs => label < known ∧ OwnFrom known cs

@[simp]
theorem created_nil : created [] = 0 := rfl

@[simp]
theorem created_createLabel (cs : List Command) : created (.createLabel :: cs) = created cs + 1 :=
  List.count_cons_self

@[simp]
theorem created_cons_of_ne {c : Command} (hc : c ≠ .createLabel) (cs : List Command) :
    created (c :: cs) = created cs := List.count_cons_of_ne hc

/-- Labels are numbered in the order in which they are created, so those of two sequences of
commands add up. -/
@[simp]
theorem created_append (cs ds : List Command) : created (cs ++ ds) = created cs + created ds :=
  List.count_append

@[simp]
theorem created_emit (is : List Instruction) : created (is.map .emit) = 0 :=
  List.count_eq_zero.mpr (by simp)

/-- What comes second may use the labels of what comes first, but not the other way round. -/
theorem ownFrom_append {known : Nat} {cs ds : List Command} :
    OwnFrom known (cs ++ ds) ↔ OwnFrom known cs ∧ OwnFrom (known + created cs) ds := by
  induction cs generalizing known with
  | nil => simp [OwnFrom]
  | cons c cs ih => cases c <;> simp [OwnFrom, ih, and_assoc, Nat.add_assoc, Nat.add_comm 1]

/-- Instructions name no labels at all. -/
theorem ownFrom_emit (known : Nat) (is : List Instruction) : OwnFrom known (is.map .emit) := by
  induction is generalizing known with
  | nil => trivial
  | cons i is ih => exact ih known

/-- The label that a command names is one of those below `known` or one that an earlier command has
created. -/
theorem OwnFrom.lt_of_mem {known : Nat} {cs : List Command} (h : OwnFrom known cs) {k : Nat}
    (hk : k < cs.length) {label : Nat} (hlabel : label ∈ cs[k].label?) :
    label < known + created (cs.take k) := by
  induction cs generalizing known k with
  | nil => exact absurd hk (Nat.not_lt_zero k)
  | cons c cs ih =>
    cases k with
    | zero =>
      cases c with
      | bind | branch =>
        cases hlabel
        exact h.1
      | _ => cases hlabel
    | succ k =>
      have hk' := Nat.lt_of_succ_lt_succ hk
      cases c with
      | createLabel =>
        have hrest := ih h hk' hlabel
        rw [List.take_succ_cons, created_createLabel]
        omega
      | emit i => simpa using ih h hk' hlabel
      | bind | branch => simpa using ih h.2 hk' hlabel

/-- Commands that start without any labels only use labels that they have created before. -/
theorem OwnFrom.ownLabels {cs : List Command} (h : OwnFrom 0 cs) : OwnLabels cs := by
  intro k hk label hlabel
  have hlt := h.lt_of_mem hk hlabel
  rwa [Nat.zero_add] at hlt

/-- A branch among the fields of some commands comes from one of those commands, which names the
label that the field waits for. -/
theorem split_of_mem_branches {p : Patch} {offset : Nat} {cs : List Command}
    (hp : p ∈ branches offset cs) :
    ∃ before c after, cs = before ++ c :: after ∧ c.label? = some p.label := by
  induction cs generalizing offset with
  | nil => cases hp
  | cons c cs ih =>
    rcases List.mem_append.mp hp with hhead | htail
    · refine ⟨[], c, cs, rfl, ?_⟩
      cases c with
      | branch condition width label =>
        cases Option.mem_toList.mp hhead
        rfl
      | _ => cases Option.mem_toList.mp hhead
    · obtain ⟨before, d, after, rfl, hlabel⟩ := ih htail
      exact ⟨c :: before, d, after, rfl, hlabel⟩

/-- A branch leads to a label that the commands create, be it before or after the branch. -/
theorem OwnLabels.lt_of_mem_branches {cs : List Command} (h : OwnLabels cs) {p : Patch}
    {offset : Nat} (hp : p ∈ branches offset cs) : p.label < created cs := by
  obtain ⟨before, c, after, rfl, hlabel⟩ := split_of_mem_branches hp
  have hlt := h.of_split hlabel
  rw [created_append]
  omega

end Commands

/-! ### Labels of structured code -/

namespace Code

open Commands

variable (tests : List (List Instruction × Condition))

/-- Tests create no labels, they only branch to the one of the slow alternative. -/
@[simp]
theorem created_testCommands (slow : Nat) : created (testCommands slow tests) = 0 := by
  induction tests with
  | nil => rfl
  | cons test tests ih => simp [testCommands, ih]

/-- All tests of a choice name the label of its slow alternative. -/
theorem ownFrom_testCommands {known slow : Nat} (hslow : slow < known) :
    OwnFrom known (testCommands slow tests) := by
  induction tests with
  | nil => trivial
  | cons test tests ih =>
    rw [testCommands, ownFrom_append, created_emit]
    exact ⟨ownFrom_emit _ _, hslow, ih⟩

theorem count_bind_emit (is : List Instruction) (label : Nat) :
    (is.map Command.emit).count (.bind label) = 0 := List.count_eq_zero.mpr (by simp)

/-- Tests bind no labels. -/
theorem count_bind_testCommands (slow label : Nat) :
    (testCommands slow tests).count (.bind label) = 0 := by
  induction tests with
  | nil => rfl
  | cons test tests ih => simp [testCommands, count_bind_emit, ih]

/-- The layout of structured code creates as many labels as its patterns ask for. -/
@[simp]
theorem created_commands (code : Code) (fresh : Nat) :
    created (code.commands fresh) = code.labels := by
  induction code generalizing fresh with
  | straight is => exact created_emit is
  | seq first second ihf ihs => rw [commands, created_append, ihf, ihs, labels]
  | skip condition width body ih =>
    simp only [commands, List.cons_append, created_createLabel, created_append, ne_eq, reduceCtorEq,
      not_false_eq_true, created_cons_of_ne, created_nil, ih, labels]
    omega
  | choose tests fast slow ihf ihs =>
    simp only [commands, List.cons_append, created_createLabel, created_append, ne_eq, reduceCtorEq,
      not_false_eq_true, created_cons_of_ne, created_nil, created_testCommands, ihf, ihs, labels]
    omega

/-- The layout of structured code names only labels that it has **created before**, by induction on
the code: each pattern creates its own labels first and is followed by those of its parts. -/
theorem ownFrom_commands (code : Code) (fresh : Nat) : OwnFrom fresh (code.commands fresh) := by
  induction code generalizing fresh with
  | straight is => exact ownFrom_emit fresh is
  | seq first second ihf ihs =>
    rw [commands, ownFrom_append, created_commands]
    exact ⟨ihf fresh, ihs _⟩
  | skip condition width body ih =>
    rw [commands, ownFrom_append]
    exact ⟨⟨Nat.lt_succ_self fresh, ih _⟩, by simp, trivial⟩
  | choose tests fast slow ihf ihs =>
    have htests : OwnFrom (fresh + 2) (testCommands fresh tests) :=
      ownFrom_testCommands tests (by omega)
    simp only [commands, List.cons_append, List.append_assoc, OwnFrom, ownFrom_append, htests,
      created_testCommands, Nat.add_zero, ihf, created_commands, ihs, and_true, true_and]
    omega

/-- Every label of structured code is **bound exactly once**. The labels of the parts of a pattern
are numbered apart, so no part binds a label of another. -/
theorem count_bind_commands (code : Code) (fresh label : Nat) :
    (code.commands fresh).count (.bind label) =
      if fresh ≤ label ∧ label < fresh + code.labels then 1 else 0 := by
  induction code generalizing fresh with
  | straight is =>
    rw [commands, count_bind_emit, labels, if_neg (by omega)]
  | seq first second ihf ihs =>
    rw [commands, List.count_append, ihf, ihs, labels]
    grind
  | skip condition width body ih =>
    simp only [commands, List.cons_append, List.count_append, ne_eq, reduceCtorEq,
      not_false_eq_true, List.count_cons_of_ne, List.count_cons, beq_iff_eq, Command.bind.injEq,
      List.count_nil, ih, labels]
    grind
  | choose tests fast slow ihf ihs =>
    simp only [commands, List.cons_append, List.count_append, ne_eq, reduceCtorEq,
      not_false_eq_true, List.count_cons_of_ne, List.count_cons, beq_iff_eq, Command.bind.injEq,
      List.count_nil, count_bind_testCommands, ihf, ihs, labels]
    grind

/-! ### Bytes of structured code -/

/-- The size of instructions is the number of their bytes. -/
theorem size_emit (is : List Instruction) : size (is.map .emit) = (straightBytes is).length := by
  rw [size, straightBytes, List.flatMap_map]
  rfl

theorem size_createLabel (cs : List Command) : size (.createLabel :: cs) = size cs := rfl

theorem size_bind (label : Nat) (cs : List Command) : size (.bind label :: cs) = size cs := rfl

/-- A branch takes the same number of bytes before and after its displacement is known. -/
theorem size_branch (condition : Option Condition) (width : BranchWidth) (label : Nat)
    (cs : List Command) :
    size (.branch condition width label :: cs) = branchLength condition width + size cs := by
  rw [size_cons]
  exact congrArg (· + size cs) (Instruction.length_encodeBranch _ _ _)

/-- The size of tests does not depend on how far they branch. -/
theorem size_testCommands (slow distance : Nat) :
    size (testCommands slow tests) = (testBytes distance tests).length := by
  induction tests with
  | nil => rfl
  | cons test tests ih =>
    rw [testCommands, size_append, size_emit, size_branch, ih, testBytes, List.length_append,
      List.length_append, length_branchOver, Nat.add_assoc]

/-- The layout of structured code has as many bytes as the code, whatever numbers its labels get. -/
theorem size_commands (code : Code) (fresh : Nat) :
    size (code.commands fresh) = code.bytes.length := by
  induction code generalizing fresh with
  | straight is => exact size_emit is
  | seq first second ihf ihs => rw [commands, size_append, ihf, ihs, bytes, List.length_append]
  | skip condition width body ih =>
    rw [commands, size_append, size_createLabel, size_branch, ih, size_bind, bytes,
      List.length_append, length_branchOver]
    rfl
  | choose tests fast slow ihf ihs =>
    simp only [commands, List.cons_append, size_createLabel, size_append, size_branch, size_bind,
      size_testCommands tests fresh (fast.bytes.length + branchLength none .near), ihf, ihs, bytes,
      List.length_append, length_branchOver, size_nil]
    omega

/-- The instructions of tests have an encoding if they are plain. -/
theorem isEncodable_of_mem_testCommands {tests : List (List Instruction × Condition)} {slow : Nat}
    (h : ∀ t ∈ tests, ∀ i ∈ t.1, i.IsPlain) {i : Instruction}
    (hi : .emit i ∈ testCommands slow tests) : i.IsEncodable := by
  induction tests with
  | nil => cases hi
  | cons test tests ih =>
    rw [testCommands, List.mem_append, List.mem_map, List.mem_cons] at hi
    rcases hi with ⟨j, hj, heq⟩ | heq | hi
    · cases heq
      exact (h test List.mem_cons_self _ hj).encodable
    · cases heq
    · exact ih (fun t ht => h t (List.mem_cons_of_mem _ ht)) hi

/-- The layout of code that fits emits only instructions that have an encoding. Its branches are not
among them: they are assembled when their labels are known. -/
theorem isEncodable_of_mem_commands (code : Code) (h : code.Fits) {fresh : Nat}
    {i : Instruction} (hi : .emit i ∈ code.commands fresh) : i.IsEncodable := by
  induction code generalizing fresh with
  | straight is =>
    obtain ⟨j, hj, heq⟩ := List.mem_map.mp hi
    cases heq
    exact (h _ hj).encodable
  | seq first second ihf ihs => exact (List.mem_append.mp hi).elim (ihf h.1) (ihs h.2)
  | skip condition width body ih =>
    have hbody : .emit i ∈ body.commands (fresh + 1) := by simpa [commands] using hi
    exact ih h.1 hbody
  | choose tests fast slow ihf ihs =>
    obtain ⟨htests, hfast, hslow, -, -⟩ := h
    have hpieces : .emit i ∈ testCommands fresh tests ∨ .emit i ∈ fast.commands (fresh + 2) ∨
        .emit i ∈ slow.commands (fresh + 2 + fast.labels) := by simpa [commands] using hi
    rcases hpieces with hi | hi | hi
    · exact isEncodable_of_mem_testCommands htests hi
    · exact ihf hfast hi
    · exact ihs hslow hi

end Code

/-! ### Commands that finish -/

/-- Commands that a stream carries out **to the end**, with `code` as the finished code. -/
structure Commands.Finishes (commands : List Command) (code : List Byte) : Prop where
  /-- No label is used before it has been created. -/
  own : OwnLabels commands
  /-- Every label is bound, and not twice. -/
  once : ∀ label < created commands, commands.count (.bind label) = 1
  /-- Every branch reaches its label. -/
  reaches : ∀ p ∈ branches 0 commands, ∃ target, target? commands p.label = some target ∧
    p.Reaches target
  /-- There is no fault on the way, and the displacement fields that are open at any time lie inside
  the code and wait for labels that exist. -/
  runs : ∀ before, before <+: commands → ∃ s, CodeStream.empty.run before = .ok s ∧
    ∀ p ∈ s.patches, p.label < s.labels.size ∧ p.fieldEnd ≤ s.position
  /-- No field is open in the end. -/
  builds : ∃ data, CodeStream.build commands = .ok data ∧ data.toList = code

namespace CodeStream

/-- If commands are carried out to the end, then so is every beginning of them. -/
theorem run_of_run_append {s u : CodeStream} {cs ds : List Command}
    (h : s.run (cs ++ ds) = .ok u) : ∃ t, s.run cs = .ok t := by
  rw [run_append] at h
  cases hcs : s.run cs with
  | error fault =>
    rw [hcs] at h
    cases h
  | ok t => exact ⟨t, rfl⟩

/-- Fields that are **open** lie inside the code and wait for labels that exist, at every point of a
run of commands. -/
theorem Reflects.open_fields {commands : List Command} {s : CodeStream} (h : Reflects commands s)
    (hown : Commands.OwnLabels commands) :
    ∀ p ∈ s.patches, p.label < s.labels.size ∧ p.fieldEnd ≤ s.position := by
  intro p hp
  rw [h.patches] at hp
  have hbranch := (List.mem_filter.mp hp).1
  have hend := Commands.fieldEnd_le_of_mem_branches hbranch
  rw [h.labels_size, h.position_eq]
  exact ⟨hown.lt_of_mem_branches hbranch, by omega⟩

/-- **Code that fits** is carried out to the end, and what is built of it is its bytes. Less than 2
GiB of code keep every near branch within reach. -/
theorem finishes_commands {code : Code} (h : code.Fits) (hsize : code.bytes.length < 0x80000000) :
    Commands.Finishes (code.commands 0) code.bytes := by
  have hown := (code.ownFrom_commands 0).ownLabels
  have hencodable {i : Instruction} (hi : .emit i ∈ code.commands 0) :=
    code.isEncodable_of_mem_commands h hi
  rw [← code.size_commands 0] at hsize
  obtain ⟨s, hrun, hextends⟩ := run_commands h (s := .empty) (fun p hp => by cases hp)
  replace hrun : empty.run (code.commands 0) = .ok s := hrun
  have hreflects := reflects_of_run hown (fun i hi => hencodable hi) hsize hrun
  have hpending : Commands.pending (code.commands 0) = [] := by
    rw [← hreflects.patches, hextends.patches]
    rfl
  refine ⟨hown, fun label hlabel => ?_, fun p hp => ?_, ?_, s.data, ?_, ?_⟩
  · rw [code.created_commands] at hlabel
    rw [code.count_bind_commands, if_pos (by omega)]
  · obtain ⟨target, htarget, hreaches, -⟩ :=
      hreflects.reaches_of_pending_eq_nil hsize hpending p hp
    exact ⟨target, htarget, hreaches⟩
  · rintro before ⟨after, hsplit⟩
    rw [← hsplit] at hown hrun hsize
    rw [Commands.size_append] at hsize
    obtain ⟨t, ht⟩ := run_of_run_append hrun
    have hbefore := reflects_of_run hown.left
      (fun i hi => hencodable (hsplit ▸ List.mem_append_left _ hi)) (by omega) ht
    exact ⟨t, ht, hbefore.open_fields hown.left⟩
  · rw [build_of_run hreflects hrun, if_pos hpending]
  · rw [hextends.data]
    rfl

end CodeStream

end Assembly

end Dynarec
