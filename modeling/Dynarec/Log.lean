import Dynarec.Codegen.Compile
import Dynarec.Guest.Text

/-!
# Error texts and log records

What the compiler reports in words: the text of a `CompileError`, and the **log records** of a
compilation. The records are a view of the values a compilation yields, so logging changes nothing.
Addresses appear in hexadecimal with at least four digits.
-/

namespace Dynarec

open Codegen (Config CompileError CompiledBlock)
open Guest (Placed Scan ScanError)

/-- A number in lower-case hexadecimal with at least the given number of digits. -/
def paddedHex (count n : Nat) : String :=
  let digits := Nat.toDigits 16 n
  "0x" ++ String.ofList (List.replicate (count - digits.length) '0' ++ digits)

/-- A guest address, or the end of a guest range, in hexadecimal. -/
def hexText (n : Nat) : String := paddedHex 4 n

/-- A guest range in hexadecimal, its exclusive end after two dots. -/
def rangeText (r : Guest.Range) : String := hexText r.start.toNat ++ ".." ++ hexText r.stop

/-! ### Errors -/

/-- The text of an error in guest code. -/
def Guest.ScanError.text : ScanError → String
  | unknownOpcode opcode => "UnknownOpCode(" ++ toString opcode.toNat ++ ")"
  | unhandled address operation =>
    "UnhandledInstruction \x7b address: " ++ toString address.toNat ++ ", operation: " ++
      operation.text ++ " \x7d"
  | overrun address => "DecodeOverrun \x7b address: " ++ toString address.toNat ++ " \x7d"

/-- The text of a compilation error. -/
def Codegen.CompileError.text : CompileError → String
  | scan e => e.text
  | fault f => f.message
  | emptyBlock => "EmptyBlock"

/-! ### Records -/

/-- Importance of a log record. -/
inductive Level
  | trace | debug | warn
  deriving DecidableEq

/-- The name of a level. -/
def Level.text : Level → String
  | trace => "trace"
  | debug => "debug"
  | warn => "warn"

/-- A log record. -/
structure Record where
  level : Level
  text : String
  deriving DecidableEq

/-- The record of a decoded instruction. -/
def instructionRecord (p : Placed) : Record :=
  ⟨.trace, hexText p.address.toNat ++ ": " ++ p.instruction.operation.text⟩

/-- The record of a compiled block. -/
def compiledRecord (b : CompiledBlock) : Record :=
  ⟨.debug, "Compiled block " ++ rangeText b.range ++ ": " ++ toString b.instructionCount ++
    " instructions, " ++ toString b.code.length ++ " host bytes"⟩

/-- The record of a failed compilation. -/
def failedRecord (start : Address) (e : CompileError) : Record :=
  ⟨.warn, "Failed to translate block at " ++ hexText start.toNat ++ ": " ++ e.text⟩

/-- The record of dropped blocks. -/
def invalidatedRecord (dropped : Nat) (r : Guest.Range) : Record :=
  ⟨.debug, "Invalidated " ++ toString dropped ++ " blocks overlapping " ++ rangeText r⟩

/-- The records of the instructions that were decoded for a block, if the configuration asks for
them. -/
def traceRecords (config : Config) (read : Scan) : List Record :=
  if config.traceInstructions then read.listing.map instructionRecord else []

/-- The records of a compilation: those of the decoded instructions, and that of the block if it
succeeds. -/
def compileRecords (config : Config) (image : Guest.Image) (start : Address)
    (outcome : Except CompileError CompiledBlock) : List Record :=
  traceRecords config (Codegen.scan config image start) ++
    match outcome with
    | .ok block => [compiledRecord block]
    | .error _ => []

end Dynarec
