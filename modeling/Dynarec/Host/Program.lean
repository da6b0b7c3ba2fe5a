import Dynarec.Host.Decode

/-!
# Programs

A `Program` is machine code together with the instruction that starts at every offset, read once and
for all. `Program.fetch_eq` says that fetching an instruction is reading it from the code.
-/

namespace Dynarec.Host

/-- The instruction at every offset of a piece of code, in `acc` those of the offsets before it. -/
def decodeInto (acc : Array (Option (Instruction × Nat))) :
    List Byte → Array (Option (Instruction × Nat))
  | [] => acc
  | b :: bytes => decodeInto (acc.push (decode (b :: bytes))) bytes

theorem toList_decodeInto (acc : Array (Option (Instruction × Nat))) (code : List Byte) :
    (decodeInto acc code).toList = acc.toList ++ decodeAll code := by
  induction code generalizing acc with
  | nil => simp [decodeInto, decodeAll]
  | cons b bytes ih => simp [decodeInto, decodeAll, ih]

/-- Machine code that is ready to run. -/
structure Program where
  code : List Byte
  /-- The instruction at every offset, with its length. -/
  table : Array (Option (Instruction × Nat))
  table_eq : table = decodeInto #[] code

namespace Program

/-- The program with the given code. -/
def ofCode (code : List Byte) : Program := ⟨code, decodeInto #[] code, rfl⟩

/-- The instruction at an offset, and its length. -/
def fetch (p : Program) (offset : Nat) : Option (Instruction × Nat) := p.table[offset]?.join

theorem fetch_eq (p : Program) (offset : Nat) : p.fetch offset = decode (p.code.drop offset) := by
  rw [← getElem?_decodeAll, fetch, p.table_eq, ← Array.getElem?_toList, toList_decodeInto]
  simp

/-- A program is determined by its code. -/
theorem ext {p q : Program} (h : p.code = q.code) : p = q := by
  obtain ⟨_, _, rfl⟩ := p
  obtain ⟨_, _, rfl⟩ := q
  subst h
  rfl

end Program

end Dynarec.Host
