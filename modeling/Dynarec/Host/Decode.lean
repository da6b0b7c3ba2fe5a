import Dynarec.Host.Encode

/-!
# Reading machine code

`decode` reads one instruction from the front of a list of bytes, the way the host does in 64 bit
mode, and tells how many bytes it takes. It knows the instructions of `Instruction` and the forms of
memory operands that these can name; every other byte sequence is refused. `decodeAll` reads an
instruction at every offset of a piece of code.

Immediate operands are sign-extended to 64 bits, so an instruction comes back with the
representative of its immediate operand that the host computes with.
-/

namespace Dynarec.Host

/-! ### Leading bytes -/

/-- The REX byte that a byte is, if it is one. -/
def Rex.ofByte? (b : Byte) : Option Rex :=
  if b.extractLsb' 4 4 = 4 then some ⟨b.getLsbD 3, b.getLsbD 2, b.getLsbD 1, b.getLsbD 0⟩ else none

/-- What stands in front of an opcode. -/
structure Lead where
  /-- Whether the operand size byte is there. -/
  word : Bool
  rex : Option Rex

namespace Lead

/-- The fields of the REX byte, all clear if there is none. -/
def fields (l : Lead) : Rex := l.rex.getD ⟨false, false, false, false⟩

/-- The operand size of opcodes that do not name bytes. -/
def size (l : Lead) : Size := if l.fields.w then .qword else if l.word then .word else .dword

/-- The operand size of an opcode whose lowest bit tells bytes from larger operands. -/
def sizeOf (l : Lead) (opcode : Byte) : Size := if opcode.getLsbD 0 then l.size else .byte

/-- Whether nothing stands in front of the opcode. -/
def isEmpty (l : Lead) : Bool := !l.word && l.rex.isNone

/-- Whether a register field of the given operand size names this register rather than the second
byte of another one. -/
def names (l : Lead) (size : Size) (r : Register) : Bool :=
  size ≠ .byte || l.rex.isSome || !r.needsRexAsByte

end Lead

/-! ### Fields after the opcode -/

/-- The first `count` bytes, if there are as many. -/
def takeExactly : (count : Nat) → List Byte → Option (List Byte)
  | 0, _ => some []
  | _ + 1, [] => none
  | count + 1, b :: bs => (takeExactly count bs).map (b :: ·)

theorem takeExactly_append {l : List Byte} {count : Nat} (h : l.length = count) (rest : List Byte) :
    takeExactly count (l ++ rest) = some l := by
  induction l generalizing count with
  | nil => subst h; rfl
  | cons b bs ih =>
    subst h
    simp [takeExactly, ih rfl]

/-- A signed number of `count` bytes. -/
def signed? (count : Nat) (bytes : List Byte) : Option HostWord :=
  (takeExactly count bytes).map fun bs => (wordLE (8 * count) bs).signExtend 64

/-- A displacement in the given mode, and its number of bytes. -/
def displacement? (mode : BitVec 2) (bytes : List Byte) : Option (BitVec 32 × Nat) :=
  match mode.toNat with
  | 0 => some (0, 0)
  | 1 => (signed? 1 bytes).map fun d => (d.setWidth 32, 1)
  | 2 => (signed? 4 bytes).map fun d => (d.setWidth 32, 4)
  | _ => none

/-- The fields after an opcode: the bits of the register field, the other operand and the number of
bytes. -/
structure Operands where
  reg : BitVec 3
  place : Place
  length : Nat

/-- A memory operand announced by the given ModRM fields. Operands without a base register, relative
to the instruction pointer, or with a scaled index are refused. -/
def memory? (rex : Rex) (mode : BitVec 2) (field : BitVec 3) (bytes : List Byte) :
    Option (Memory × Nat) :=
  if field = 4 then
    match bytes with
    | [] => none
    | sib :: bytes =>
      let base : BitVec 3 := sib.extractLsb' 0 3
      let index : BitVec 3 := sib.extractLsb' 3 3
      if sib.extractLsb' 6 2 ≠ 0#2 ∨ (mode = 0 ∧ base = 5) then none
      else
        let register? := if index = 4 ∧ rex.x = false then none else some (.ofField rex.x index)
        (displacement? mode bytes).map fun (d, n) => (⟨.ofField rex.b base, register?, d⟩, n + 1)
  else if mode = 0 ∧ field = 5 then none
  else (displacement? mode bytes).map fun (d, n) => (⟨.ofField rex.b field, none, d⟩, n)

/-- The ModRM byte and what belongs to it. -/
def operands? (rex : Rex) : List Byte → Option Operands
  | [] => none
  | modrm :: bytes =>
    let mode : BitVec 2 := modrm.extractLsb' 6 2
    let reg : BitVec 3 := modrm.extractLsb' 3 3
    let field : BitVec 3 := modrm.extractLsb' 0 3
    if mode = 3 then some ⟨reg, .register (.ofField rex.b field), 1⟩
    else (memory? rex mode field bytes).map fun (m, n) => ⟨reg, .memory m, n + 1⟩

/-! ### Opcodes -/

/-- An opcode with a register field and a register or memory operand, both of the given size. -/
def decodeRegisterForm (l : Lead) (size : Size) (bytes : List Byte)
    (build : Register → Place → Option Instruction) : Option (Instruction × Nat) :=
  (operands? l.fields bytes).bind fun o =>
    let r : Register := .ofField l.fields.r o.reg
    let nameable :=
      l.names size r &&
        match o.place with
        | .register r' => l.names size r'
        | .memory _ => true
    if nameable then (build r o.place).map (·, o.length) else none

/-- An opcode with an operation number, a register and an immediate operand of `count` bytes. -/
def decodeGroupForm (l : Lead) (size : Size) (count : Nat) (bytes : List Byte)
    (build : BitVec 3 → Register → HostWord → Option Instruction) : Option (Instruction × Nat) :=
  (operands? l.fields bytes).bind fun o =>
    match o.place with
    | .memory _ => none
    | .register r =>
      if l.names size r then
        (signed? count (bytes.drop o.length)).bind fun v =>
          (build o.reg r v).map (·, o.length + count)
      else none

/-- An opcode that holds a register and is followed by an immediate operand of `count` bytes. -/
def decodeMovImmediate (l : Lead) (size : Size) (count : Nat) (r : Register) (bytes : List Byte) :
    Option (Instruction × Nat) :=
  if l.names size r then (signed? count bytes).map fun v => (.mov size r (.immediate v), count)
  else none

/-- A branch whose displacement has `count` bytes. -/
def decodeBranch (l : Lead) (condition : Option Condition) (width : BranchWidth)
    (bytes : List Byte) : Option (Instruction × Nat) :=
  if l.isEmpty then
    (signed? width.bytes bytes).map fun d => (.branch condition width (d.setWidth 32), width.bytes)
  else none

/-- An opcode of one byte that takes no operands. -/
def decodePlain (l : Lead) (i : Instruction) : Option (Instruction × Nat) :=
  if l.isEmpty then some (i, 0) else none

/-- An opcode after the byte `0x0F`. The number counts the bytes after this opcode. -/
def decodeSecondTable (l : Lead) (opcode : Byte) (bytes : List Byte) : Option (Instruction × Nat) :=
  if opcode.extractLsb' 4 4 = 8#4 then
    match Condition.ofCode? (opcode.extractLsb' 0 4) with
    | some c => decodeBranch l (some c) .near bytes
    | none => none
  else if opcode = 0xB6 ∨ opcode = 0xB7 then
    if l.size ≠ .dword then none
    else
      (operands? l.fields bytes).bind fun o =>
        let wide : Bool := opcode = 0xB7
        let nameable :=
          match o.place with
          | .register r => wide || l.names .byte r
          | .memory _ => true
        if nameable then some (.movzx wide (.ofField l.fields.r o.reg) o.place, o.length) else none
  else if opcode = 0xBA then
    if l.size ≠ .dword then none
    else
      decodeGroupForm l .dword 1 bytes fun d r v =>
        if d = 4 then some (.bitTest r (v.setWidth 8)) else none
  else none

/-- The shift of a register by a constant. -/
def shift? (size : Size) (amount : Byte) (d : BitVec 3) (r : Register) : Option Instruction :=
  (ShiftOp.ofDigit? d).map fun op => .shift op size r amount

/-- An opcode of the first table. The number counts the bytes after the opcode. -/
def decodeFirstTable (l : Lead) (opcode : Byte) (bytes : List Byte) : Option (Instruction × Nat) :=
  let row : BitVec 5 := opcode.extractLsb' 3 5
  let low : BitVec 3 := opcode.extractLsb' 0 3
  let register : Register := .ofField l.fields.b low
  let size := l.sizeOf opcode
  if row = 0x0A#5 then if l.size = .dword then some (.push register, 0) else none
  else if row = 0x0B#5 then if l.size = .dword then some (.pop register, 0) else none
  else if row = 0x16#5 then decodeMovImmediate l .byte 1 register bytes
  else if row = 0x17#5 then decodeMovImmediate l l.size (l.size.bits / 8) register bytes
  else if opcode.extractLsb' 6 2 = 0#2 ∧ (low = 0 ∨ low = 1) then
    decodeRegisterForm l size bytes fun r place =>
      match place with
      | .register dst => some (.alu (.ofDigit (opcode.extractLsb' 3 3)) size dst (.register r))
      | .memory _ => none
  else if opcode.extractLsb' 4 4 = 7#4 then
    match Condition.ofCode? (opcode.extractLsb' 0 4) with
    | some c => decodeBranch l (some c) .short bytes
    | none => none
  else
    match opcode.toNat with
    | 0x80 =>
      decodeGroupForm l .byte 1 bytes fun d r v =>
        some (.alu (.ofDigit d) .byte r (.immediate v))
    | 0x81 =>
      decodeGroupForm l l.size l.size.immediateBytes bytes fun d r v =>
        some (.alu (.ofDigit d) l.size r (.immediate v))
    | 0x83 =>
      decodeGroupForm l l.size 1 bytes fun d r v => some (.alu (.ofDigit d) l.size r (.immediate v))
    | 0x84 | 0x85 =>
      decodeRegisterForm l size bytes fun r place =>
        match place with
        | .register dst => some (.test size dst (.register r))
        | .memory _ => none
    | 0x88 | 0x89 =>
      decodeRegisterForm l size bytes fun r place =>
        match place with
        | .register dst => some (.mov size dst (.register r))
        | .memory m => some (.store size m r)
    | 0x8A | 0x8B =>
      decodeRegisterForm l size bytes fun r place =>
        match place with
        | .register src => some (.mov size r (.register src))
        | .memory m => some (.load size r m)
    | 0x8D =>
      decodeRegisterForm l l.size bytes fun r place =>
        match place with
        | .register _ => none
        | .memory m => some (.lea l.size r m)
    | 0x90 => decodePlain l .nop
    | 0x9C => decodePlain l .pushFlags
    | 0x9D => decodePlain l .popFlags
    | 0xC0 | 0xC1 =>
      decodeGroupForm l size 1 bytes fun d r v => shift? size (v.setWidth 8) d r
    | 0xC3 => decodePlain l .ret
    | 0xC7 =>
      decodeGroupForm l l.size l.size.immediateBytes bytes fun d r v =>
        if d = 0 then some (.mov l.size r (.immediate v)) else none
    | 0xD0 | 0xD1 => decodeGroupForm l size 0 bytes fun d r _ => shift? size 1 d r
    | 0xE9 => decodeBranch l none .near bytes
    | 0xEB => decodeBranch l none .short bytes
    | 0xF6 | 0xF7 =>
      decodeGroupForm l size size.immediateBytes bytes fun d r v =>
        if d = 0 then some (.test size r (.immediate v)) else none
    | 0xFF =>
      if l.size ≠ .dword then none
      else
        (operands? l.fields bytes).bind fun o =>
          if o.reg = 2 then some (.call (some o.place), o.length) else none
    | _ => none

/-- An opcode of either table. The number counts the opcode and the bytes after it. -/
def decodeOpcode (l : Lead) : List Byte → Option (Instruction × Nat)
  | [] => none
  | opcode :: bytes =>
    if opcode = 0x0F then
      match bytes with
      | [] => none
      | second :: bytes => (decodeSecondTable l second bytes).map fun (i, n) => (i, n + 2)
    else (decodeFirstTable l opcode bytes).map fun (i, n) => (i, n + 1)

/-- The REX byte, if there is one, and the opcode. -/
def decodeAfterMarker (word : Bool) : List Byte → Option (Instruction × Nat)
  | [] => none
  | b :: bytes =>
    match Rex.ofByte? b with
    | some rex => (decodeOpcode ⟨word, some rex⟩ bytes).map fun (i, n) => (i, n + 1)
    | none => decodeOpcode ⟨word, none⟩ (b :: bytes)

/-- **Reads one instruction** from the front of a list of bytes, and its length. -/
def decode : List Byte → Option (Instruction × Nat)
  | [] => none
  | b :: bytes =>
    if b = 0x66 then (decodeAfterMarker true bytes).map fun (i, n) => (i, n + 1)
    else decodeAfterMarker false (b :: bytes)

/-- The instruction at every offset of a piece of code. -/
def decodeAll : List Byte → List (Option (Instruction × Nat))
  | [] => []
  | b :: bytes => decode (b :: bytes) :: decodeAll bytes

theorem getElem?_decodeAll (code : List Byte) (offset : Nat) :
    (decodeAll code)[offset]?.join = decode (code.drop offset) := by
  induction code generalizing offset with
  | nil => simp [decodeAll, decode]
  | cons b bytes ih =>
    cases offset with
    | zero => simp [decodeAll]
    | succ offset => simpa [decodeAll] using ih offset

end Dynarec.Host
