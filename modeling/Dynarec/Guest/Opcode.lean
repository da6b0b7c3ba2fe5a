import Dynarec.Guest.Operation

/-!
# The opcode tables

The guest has two tables of 256 opcodes. An opcode of the first is one byte and is followed by zero,
one or two operand bytes (`operandSize`), eleven of its entries do not exist, and the entry `0xCB`
(`tableSwitch`) selects the second table, whose opcodes have no operand bytes.

Both tables are regular: an opcode splits into a two bit column `x`, a three bit row `y` and a three
bit selector `z`, and `y` splits once more into a two bit `p` and a one bit `q`.
-/

namespace Dynarec.Guest.Opcode

/-- The opcode that switches to the second table. -/
def tableSwitch : Byte := 0xCB

/-- The opcodes that do not exist. -/
def illegal : List Byte :=
  [0xD3, 0xDB, 0xDD, 0xE3, 0xE4, 0xEB, 0xEC, 0xED, 0xF4, 0xFC, 0xFD]

/-- The opcodes followed by a 16 bit operand: immediate loads of a pair, absolute addresses, jumps
and calls. -/
def withWord : List Byte :=
  [0x01, 0x11, 0x21, 0x31, 0x08, 0xC2, 0xC3, 0xCA, 0xD2, 0xDA,
   0xC4, 0xCC, 0xCD, 0xD4, 0xDC, 0xEA, 0xFA]

/-- The opcodes followed by an 8 bit operand: immediate loads, relative jumps, `STOP`, immediate
arithmetic, high memory and stack pointer offsets. -/
def withByte : List Byte :=
  [0x06, 0x0E, 0x16, 0x1E, 0x26, 0x2E, 0x36, 0x3E, 0x18, 0x20, 0x28, 0x30, 0x38, 0x10,
   0xC6, 0xCE, 0xD6, 0xDE, 0xE6, 0xEE, 0xF6, 0xFE, 0xE0, 0xF0, 0xE8, 0xF8]

/-- The number of operand bytes after an opcode of the first table, or `none` if it does not
exist. -/
def operandSize (opcode : Byte) : Option Nat :=
  if opcode ∈ illegal then none
  else if opcode ∈ withWord then some 2
  else if opcode ∈ withByte then some 1
  else some 0

/-! ### The fields of an opcode -/

/-- The two bit column. -/
def x (opcode : Byte) : BitVec 2 := opcode.extractLsb' 6 2

/-- The three bit row. -/
def y (opcode : Byte) : BitVec 3 := opcode.extractLsb' 3 3

/-- The three bit selector. -/
def z (opcode : Byte) : BitVec 3 := opcode.extractLsb' 0 3

/-- The upper two bits of the row. -/
def p (opcode : Byte) : BitVec 2 := opcode.extractLsb' 4 2

/-- The lowest bit of the row. -/
def q (opcode : Byte) : Bool := opcode.getLsbD 3

/-- The lower two bits of the row, where conditional branches keep their condition. -/
def condition (opcode : Byte) : Condition := .ofIndex (opcode.extractLsb' 3 2)

/-! ### The tables -/

/-- The operation of an opcode of the first table. `operand` holds the operand bytes, if any.
Entries that do not exist yield whatever their row and column would hold. -/
def decode (opcode : Byte) (operand : BitVec 16) : Operation :=
  let low := operand.setWidth 8
  match (x opcode).toNat, (z opcode).toNat with
  | 0, 0 =>
    match (y opcode).toNat with
    | 0 => .nop
    | 1 => .storeStackPointer operand
    | 2 => .stop
    | 3 => .jumpRelative none low
    | _ => .jumpRelative (some (condition opcode)) low
  | 0, 1 =>
    if q opcode then .addHl (.ofIndex (p opcode))
    else .loadImmediate16 (.ofIndex (p opcode)) operand
  | 0, 2 =>
    let memory : Operand8 :=
      match (p opcode).toNat with
      | 0 => .indirect .bc
      | 1 => .indirect .de
      | 2 => .indirectHlIncrement
      | _ => .indirectHlDecrement
    if q opcode then .load (.register .a) memory else .load memory (.register .a)
  | 0, 3 =>
    if q opcode then .decrement16 (.ofIndex (p opcode)) else .increment16 (.ofIndex (p opcode))
  | 0, 4 => .increment (.ofIndex (y opcode))
  | 0, 5 => .decrement (.ofIndex (y opcode))
  | 0, 6 => .load (.ofIndex (y opcode)) (.immediate low)
  | 0, _ =>
    match (y opcode).toNat with
    | 0 => .rotateAccumulator .rlc
    | 1 => .rotateAccumulator .rrc
    | 2 => .rotateAccumulator .rl
    | 3 => .rotateAccumulator .rr
    | 4 => .daa
    | 5 => .cpl
    | 6 => .scf
    | _ => .ccf
  | 1, selector =>
    if selector = 6 ∧ (y opcode).toNat = 6 then .halt
    else .load (.ofIndex (y opcode)) (.ofIndex (z opcode))
  | 2, _ => .alu (.ofIndex (y opcode)) (.ofIndex (z opcode))
  | _, 0 =>
    match (y opcode).toNat with
    | 4 => .load (.highAbsolute low) (.register .a)
    | 5 => .addStackPointer low
    | 6 => .load (.register .a) (.highAbsolute low)
    | 7 => .loadHlFromStackOffset low
    | _ => .ret (some (condition opcode))
  | _, 1 =>
    if q opcode then
      match (p opcode).toNat with
      | 0 => .ret none
      | 1 => .retInterrupt
      | 2 => .jumpHl
      | _ => .loadStackPointerFromHl
    else .pop (.ofIndex (p opcode))
  | _, 2 =>
    match (y opcode).toNat with
    | 4 => .load .highC (.register .a)
    | 5 => .load (.absolute operand) (.register .a)
    | 6 => .load (.register .a) .highC
    | 7 => .load (.register .a) (.absolute operand)
    | _ => .jump (some (condition opcode)) operand
  | _, 3 =>
    match (y opcode).toNat with
    | 0 => .jump none operand
    | 6 => .di
    | _ => .ei
  | _, 4 => .call (some (condition opcode)) operand
  | _, 5 => if q opcode then .call none operand else .push (.ofIndex (p opcode))
  | _, 6 => .alu (.ofIndex (y opcode)) (.immediate low)
  | _, _ => .restart (opcode &&& 0x38)

/-- The operation of an opcode of the second table. -/
def decodePrefixed (opcode : Byte) : Operation :=
  let target := Operand8.ofIndex (z opcode)
  match (x opcode).toNat with
  | 0 => .shift (.ofIndex (y opcode)) target
  | 1 => .bit (y opcode) target
  | 2 => .reset (y opcode) target
  | _ => .set (y opcode) target

end Dynarec.Guest.Opcode
