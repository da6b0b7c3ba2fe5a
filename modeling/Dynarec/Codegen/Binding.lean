import Dynarec.Guest.Operand
import Dynarec.Host.Instruction

/-!
# Guest state in host registers

Every guest register has a fixed place in a host register, so blocks are entered and left without
moving anything. The host registers are **callee-saved**, so that handlers preserve them; only the
cycle counter lives in a register that a call may change. Values are kept zero-extended.

| guest           | host                                                     |
|-----------------|----------------------------------------------------------|
| A               | `r13`                                                    |
| BC, DE, HL      | `rbx`, `rbp`, `r12`                                      |
| SP              | the low 16 bits of `r14`, above them the window base     |
| Z and C         | bits 6 and 0 of `r15`, where the host flags have them    |
| cycles          | `r10`                                                    |

Since the window is aligned to its size, `r14` points at the top of the guest stack, and writing its
low half alone moves the stack pointer.
-/

namespace Dynarec.Codegen

open Host (Register Instruction)
open Guest (Reg8 Reg16)

/-! ### Roles of host registers -/

/-- Guest register A. -/
abbrev accumulator : Register := .r13

/-- Window base and guest SP. -/
abbrev stackPointer : Register := .r14

/-- Guest Z and C, at their places among the host flags. -/
abbrev shadowFlags : Register := .r15

/-- Elapsed clock cycles. -/
abbrev cycleCounter : Register := .r10

/-- What a read or a handler call yields. -/
abbrev result : Register := .rax

/-- An operand that is not in memory. -/
abbrev operand : Register := .rcx

/-- What a write stores, and the guest address at which execution goes on after a block. -/
abbrev value : Register := .rdx

/-- The guest address of an access. -/
abbrev address : Register := .rsi

/-- The window base, and the memory device for a handler. -/
abbrev window : Register := .rdi

/-- Host flags taken right after the instruction that defines them. -/
abbrev capturedFlags : Register := .r8

/-- Host flags of a second test. -/
abbrev scratchFlags : Register := .r9

/-- The execution context. -/
abbrev context : Register := .r11

/-! ### Places of guest registers -/

/-- Where an 8 bit guest register lives inside its host register. -/
inductive Slot
  | whole (r : Register)
  | low (r : Register)
  | high (r : Register)
  deriving DecidableEq

/-- The written form of a slot. -/
def Slot.text : Slot → String
  | whole r => "Whole(" ++ r.text ++ ")"
  | low r => "Low(" ++ r.text ++ ")"
  | high r => "High(" ++ r.text ++ ")"

/-- The host register of a pair. That of SP also holds the window base. -/
def pairRegister : Reg16 → Register
  | .bc => .rbx
  | .de => .rbp
  | .hl => .r12
  | .sp => stackPointer

/-- The slot of an 8 bit guest register. -/
def slot : Reg8 → Slot
  | .a => .whole accumulator
  | .b => .high (pairRegister .bc)
  | .c => .low (pairRegister .bc)
  | .d => .high (pairRegister .de)
  | .e => .low (pairRegister .de)
  | .h => .high (pairRegister .hl)
  | .l => .low (pairRegister .hl)

/-! ### Access to guest registers -/

/-- Reads an 8 bit guest register, zero-extended, into `dst`. Changes the host flags for the high
half of a pair only. -/
def load8 (g : Reg8) (dst : Register) : List Instruction :=
  match slot g with
  | .whole src => [.mov .dword dst (.register src)]
  | .low src => [.movzx false dst (.register src)]
  | .high src => [.movzx true dst (.register src), .shift .shr .dword dst 8]

/-- Writes the low byte of `src` to an 8 bit guest register. The high half of a pair is reached by
rotating the pair; this changes the host flags, the other writes do not. -/
def store8 (g : Reg8) (src : Register) : List Instruction :=
  match slot g with
  | .whole dst => [.movzx false dst (.register src)]
  | .low dst => [.mov .byte dst (.register src)]
  | .high dst =>
    [.shift .ror .word dst 8, .mov .byte dst (.register src), .shift .rol .word dst 8]

/-- Reads a register pair, zero-extended, into `dst`. Keeps the host flags. -/
def load16 (g : Reg16) (dst : Register) : List Instruction :=
  [.movzx true dst (.register (pairRegister g))]

/-- Writes the low word of `src` to a register pair. Keeps the host flags. -/
def store16 (g : Reg16) (src : Register) : List Instruction :=
  match g with
  | .sp => [.mov .word stackPointer (.register src)]
  | _ => [.movzx true (pairRegister g) (.register src)]

/-- Puts the window base and the zero-extended SP in `src` together. -/
def rebiasStackPointer (windowBase : HostWord) (src : Register) : List Instruction :=
  [.mov .qword stackPointer (.immediate windowBase),
    .alu .or .qword stackPointer (.register src)]

end Dynarec.Codegen
