import Dynarec.Assembly.Block
import Dynarec.Codegen.Operation
import Dynarec.Host.Program

/-!
# Compilation of a block

`compile` reads a block from an image and turns it into machine code, instruction after instruction,
with an exit at the end if control falls through. The outcome is a `CompiledBlock`: the guest range
that the code stands for, the number of instructions and the code itself.
-/

namespace Dynarec.Codegen

open Assembly (Code CodeBlock)
open Bridge (Layout)
open Guest (Image Placed Range Scan ScanError)

/-- **Configuration** of the compiler. -/
structure Config where
  /-- A block is closed after this many instructions. It holds at least one. -/
  maxBlockInstructions : Nat := 64
  /-- Whether every decoded instruction is logged. -/
  traceInstructions : Bool := false
  deriving DecidableEq

/-- Why a block could not be compiled. -/
inductive CompileError
  /-- The guest code cannot be read. -/
  | scan (e : ScanError)
  /-- The block does not fit guest memory. -/
  | fault (f : Fault)
  /-- There is no host code. -/
  | emptyBlock
  deriving DecidableEq

/-- A block in executable form. -/
structure CompiledBlock where
  range : Range
  instructionCount : Nat
  program : Host.Program

/-- The machine code of a block. -/
def CompiledBlock.code (b : CompiledBlock) : List Byte := b.program.code

/-- The block made of a finished range and its code, which must not be empty. -/
def CompiledBlock.ofCode? (range : Range) (code : List Byte) (instructionCount : Nat) :
    Option CompiledBlock :=
  if code.isEmpty then none else some ⟨range, instructionCount, .ofCode code⟩

/-- The host code of instructions one after another, `before` saying what is known about the host
flags at the start. -/
def instructionsCode (layout : Layout) (before : HostFlags) : List Placed → Code
  | [] => .empty
  | p :: ps =>
    operationCode layout before p ++
      instructionsCode layout (before.after p.instruction.operation) ps

/-- The **host code of a block**: that of its instructions, and an exit to the guest address after
it if control falls through. Nothing is known about the host flags on entry. -/
def blockCode (layout : Layout) (listing : List Placed) (ending : Guest.Ending) : Code :=
  instructionsCode layout .clobbered listing ++
    if ending.fallsThrough then .straight (leaveFor (BitVec.ofNat 16 ending.cursor) .branch)
    else .empty

/-- Reads the block at a guest address. -/
def scan (config : Config) (image : Image) (start : Address) : Scan :=
  image.scan (config.maxBlockInstructions - 1) start.toNat

/-- Turns a block that has been read into machine code. -/
def assembleBlock (layout : Layout) (start : Address) (listing : List Placed)
    (ending : Guest.Ending) : Except CompileError CompiledBlock :=
  let finished := do
    let block ← (CodeBlock.openAt start).extend (blockCode layout listing ending)
    (block.close (ending.cursor - start.toNat)).finish
  match finished with
  | .error f => .error (.fault f)
  | .ok (range, code) =>
    match CompiledBlock.ofCode? range code.toList listing.length with
    | none => .error .emptyBlock
    | some block => .ok block

/-- **Compiles** the block at a guest address. -/
def compile (config : Config) (layout : Layout) (image : Image) (start : Address) :
    Except CompileError CompiledBlock :=
  let read := scan config image start
  match read.outcome with
  | .error e => .error (.scan e)
  | .ok ending => assembleBlock layout start read.listing ending

end Dynarec.Codegen
