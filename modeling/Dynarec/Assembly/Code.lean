import Dynarec.Assembly.Stream

/-!
# Structured code

Generated code has forward branches only, in two patterns: **skip** a piece of code under a
condition, and **choose** between a fast and a slow piece by a sequence of tests. `Code` is code in
that structured form. `Code.commands` lays it out as commands for a code stream: a skipped piece is
followed by its label, and of two alternatives the fast one comes first and jumps over the slow one.
-/

namespace Dynarec.Assembly

open Host (Instruction Condition)

/-- Structured host code. -/
inductive Code
  /-- Instructions without branches. -/
  | straight (instructions : List Instruction)
  | seq (first second : Code)
  /-- Skips `body` if the condition holds. -/
  | skip (condition : Condition) (width : BranchWidth) (body : Code)
  /-- Goes through the tests, each of which runs some instructions and then takes the slow
  alternative if its condition holds. Takes the fast one if no condition did. -/
  | choose (tests : List (List Instruction × Condition)) (fast slow : Code)

namespace Code

/-- Code that does nothing. -/
def empty : Code := straight []

/-- One instruction. -/
def instruction (i : Instruction) : Code := straight [i]

instance : Append Code := ⟨seq⟩

/-- The number of labels that the layout of a piece of code creates. -/
def labels : Code → Nat
  | straight _ => 0
  | seq first second => first.labels + second.labels
  | skip _ _ body => 1 + body.labels
  | choose _ fast slow => 2 + fast.labels + slow.labels

/-- The commands for the tests of an alternative. -/
def testCommands (slow : Nat) : List (List Instruction × Condition) → List Command
  | [] => []
  | (instructions, condition) :: tests =>
    instructions.map .emit ++ .branch (some condition) .near slow :: testCommands slow tests

/-- **Layout** of a piece of code whose labels are numbered from `fresh` on. -/
def commands : Code → (fresh : Nat) → List Command
  | straight instructions, _ => instructions.map .emit
  | seq first second, fresh => first.commands fresh ++ second.commands (fresh + first.labels)
  | skip condition width body, fresh =>
    .createLabel :: .branch (some condition) width fresh :: body.commands (fresh + 1) ++
      [.bind fresh]
  | choose tests fast slow, fresh =>
    .createLabel :: .createLabel :: testCommands fresh tests ++ fast.commands (fresh + 2) ++
      .branch none .near (fresh + 1) :: .bind fresh :: slow.commands (fresh + 2 + fast.labels) ++
        [.bind (fresh + 1)]

end Code

/-- Appends structured code to a stream. -/
def CodeStream.extend (s : CodeStream) (code : Code) : Except Fault CodeStream :=
  s.run (code.commands s.labels.size)

end Dynarec.Assembly
