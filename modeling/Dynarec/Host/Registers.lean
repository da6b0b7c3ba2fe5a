import Dynarec.Host.Register

/-!
# The register file

The values of the sixteen host registers. An instruction reads the low bits of a register; a write
of 8 or 16 bits keeps the bits above, one of 32 bits clears them.
-/

namespace Dynarec.Host

/-- The values of the host registers. -/
structure Registers where
  values : Vector HostWord 16

namespace Registers

/-- The place of a register in the file. -/
def index (r : Register) : Fin 16 := r.number.toFin

theorem index_inj {r q : Register} : index r = index q ↔ r = q := by
  cases r <;> cases q <;> decide

theorem index_ofNumber (i : Fin 16) : index (.ofNumber (BitVec.ofFin i)) = i := by
  revert i
  decide

/-- The file with one value in every register. -/
def replicate (v : HostWord) : Registers := ⟨.replicate 16 v⟩

/-- The value of a register. -/
def get (s : Registers) (r : Register) : HostWord := s.values[index r]

/-- The file with another value in a register. -/
def set (s : Registers) (r : Register) (v : HostWord) : Registers :=
  ⟨s.values.set (index r) v⟩

theorem get_set (s : Registers) (r q : Register) (v : HostWord) :
    (s.set r v).get q = if q = r then v else s.get q := by
  have hiff : (index r).val = (index q).val ↔ q = r := by
    rw [← Fin.ext_iff, index_inj, eq_comm]
  simp only [set, get, Fin.getElem_fin, Vector.getElem_set, hiff]

@[simp]
theorem get_replicate (v : HostWord) (r : Register) : (replicate v).get r = v := by
  simp [replicate, get]

theorem ext {s t : Registers} (h : ∀ r, s.get r = t.get r) : s = t := by
  obtain ⟨s⟩ := s
  obtain ⟨t⟩ := t
  refine congrArg Registers.mk (Vector.ext fun i hi => ?_)
  simpa [get, index_ofNumber] using h (.ofNumber (BitVec.ofFin (⟨i, hi⟩ : Fin 16)))

end Registers

namespace Size

/-- A register value after a write of the given size. -/
def update (size : Size) (old : HostWord) (v : BitVec size.bits) : HostWord :=
  match size, v with
  | byte, v => ((old >>> 8) <<< 8) ||| v.setWidth 64
  | word, v => ((old >>> 16) <<< 16) ||| v.setWidth 64
  | dword, v => v.setWidth 64
  | qword, v => v

end Size

namespace Registers

/-- The low bits of a register. -/
def read (s : Registers) (size : Size) (r : Register) : BitVec size.bits := (s.get r).setWidth _

/-- Writes the low bits of a register. -/
def write (s : Registers) (size : Size) (r : Register) (v : BitVec size.bits) : Registers :=
  s.set r (size.update (s.get r) v)

end Registers

end Dynarec.Host
