import Dynarec.Host.Encode

/-!
# Code streams

Host code is assembled into a `CodeStream` by **commands**: create a label, bind a label to the
current position, append an instruction, append a branch to a label. A branch to a label that is
already bound gets its displacement at once; a branch to one that is not leaves a **patch** behind,
which is filled in when the label is bound. A stream can be finished only when no patch is pending.

Labels are numbered from 0 in the order of their creation.
-/

namespace Dynarec.Assembly

open Host (Instruction Condition)

/-- Host code under construction. -/
structure CodeStream where
  /-- The bytes emitted so far. -/
  data : Array Byte
  /-- For every label, where it is bound. -/
  labels : Array (Option Nat)
  /-- The displacement fields that wait for their label, in the order of their branches. -/
  patches : List Patch

/-- A request to a code stream. -/
inductive Command
  | createLabel
  | bind (label : Nat)
  | emit (i : Instruction)
  | branch (condition : Option Condition) (width : BranchWidth) (label : Nat)
  deriving DecidableEq

namespace CodeStream

/-- The stream without code. -/
def empty : CodeStream := ⟨#[], #[], []⟩

/-- The offset at which the next instruction will start. -/
def position (s : CodeStream) : Nat := s.data.size

/-- Where a label is bound, if it is. -/
def target? (s : CodeStream) (label : Nat) : Option Nat := s.labels[label]?.join

/-- The stream with one more label, and the label. -/
def createLabel (s : CodeStream) : Nat × CodeStream :=
  (s.labels.size, { s with labels := s.labels.push none })

/-- Overwrites the bytes from an offset on. -/
def overwrite (data : Array Byte) (offset : Nat) : List Byte → Array Byte
  | [] => data
  | b :: bs => overwrite (data.setIfInBounds offset b) (offset + 1) bs

/-- The displacement field of a patch whose label is bound to `target`. -/
def displacement (p : Patch) (target : Nat) : Except Fault (List Byte) :=
  let distance : Int := (target : Int) - (p.fieldEnd : Int)
  match p.width with
  | .short =>
    if -128 ≤ distance ∧ distance ≤ 127 then .ok (bytesLE 1 (BitVec.ofInt 8 distance))
    else .error (.unreachableLabel distance p.offset)
  | .near =>
    if -2147483648 ≤ distance ∧ distance ≤ 2147483647 then
      .ok (bytesLE 4 (BitVec.ofInt 32 distance))
    else .error .distantLabel

/-- Fills in the displacement field of a patch whose label is bound to `target`. -/
def resolve (target : Nat) (s : CodeStream) (p : Patch) : Except Fault CodeStream :=
  match displacement p target with
  | .ok field => .ok { s with data := overwrite s.data p.offset field }
  | .error fault => .error fault

/-- **Binds** a label to the current position and resolves the patches that wait for it. -/
def bind (s : CodeStream) (label : Nat) : Except Fault CodeStream :=
  if (s.target? label).isSome then .error (.labelRebound label)
  else
    let here := s.position
    let ready := s.patches.filter (·.label = label)
    let pending := s.patches.filter (·.label ≠ label)
    let bound : CodeStream := ⟨s.data, s.labels.setIfInBounds label (some here), pending⟩
    ready.foldlM (resolve here) bound

/-- Appends machine code. -/
def append (s : CodeStream) (code : List Byte) : CodeStream :=
  { s with data := s.data.appendList code }

/-- Appends an **instruction**. -/
def emit (s : CodeStream) (i : Instruction) : Except Fault CodeStream :=
  match i.assemble with
  | .ok code => .ok (s.append code)
  | .error fault => .error fault

/-- Appends a **branch** to a label. -/
def branch (s : CodeStream) (condition : Option Condition) (width : BranchWidth) (label : Nat) :
    Except Fault CodeStream :=
  let s := s.append (Instruction.branch condition width 0).encode
  let patch : Patch := ⟨s.position - width.bytes, width, label⟩
  match s.target? label with
  | some target => resolve target s patch
  | none => .ok { s with patches := s.patches ++ [patch] }

/-- Carries out one command. -/
def step (s : CodeStream) : Command → Except Fault CodeStream
  | .createLabel => .ok s.createLabel.2
  | .bind label => s.bind label
  | .emit i => s.emit i
  | .branch condition width label => s.branch condition width label

/-- **Carries out** commands one after another, up to the first fault. -/
def run (s : CodeStream) (commands : List Command) : Except Fault CodeStream :=
  commands.foldlM step s

/-- The finished machine code. -/
def finish (s : CodeStream) : Except Fault (Array Byte) :=
  if s.patches.isEmpty then .ok s.data else .error (.unresolvedPatches s.patches)

end CodeStream

end Dynarec.Assembly
