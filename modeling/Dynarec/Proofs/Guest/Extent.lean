import Dynarec.Proofs.Guest.Listing

/-!
# How far reading a block goes

The **extent** of a block (`Image.extent`) is the index after the last byte that is looked at while
the block is being read, whether or not reading it succeeds. If it does, the extent is where the
block ends (`extent_of_scan`). An image that has the same bytes up to there is read in the same way,
whether or not the block can be read (`scan_congr_of_extent`).

An image can be cut anywhere at or after the extent of a block without a difference to what is read
(`scan_take`). If it is cut before that, what is read of it comes to its end: control falls through
there, or an instruction runs past it (`scan_take_of_lt`).
-/

namespace Dynarec.Guest.Image

variable {image : Image}

/-! ### Instructions -/

/-- The index after the last byte that a decoder is fed for an instruction. `left` is the number of
bytes from `cursor` to the end of the image. -/
def extentFrom (image : Image) : (left : Nat) → Decoder → (cursor : Nat) → Nat
  | 0, _, cursor => cursor
  | left + 1, decoder, cursor =>
    match decoder.feed (image.byte cursor) with
    | (.pending, decoder) => image.extentFrom left decoder (cursor + 1)
    | _ => cursor + 1

/-- The **extent of an instruction**: the index after the last byte that fetching it looks at. -/
def fetchExtent (image : Image) (cursor : Nat) : Nat :=
  image.extentFrom (image.size - cursor) .boundary cursor

/-- An instruction that is fetched ends at its extent. -/
theorem extentFrom_of_ok {left : Nat} {d : Decoder} {cursor next : Nat} {instruction : Instruction}
    (h : image.fetchFrom left d cursor = .ok (instruction, next)) :
    image.extentFrom left d cursor = next := by
  induction left generalizing d cursor with
  | zero => cases h
  | succ left ih =>
    rw [fetchFrom] at h
    rw [extentFrom]
    split at h
    · next hfeed =>
      cases h
      rw [hfeed]
    · cases h
    · next hfeed =>
      rw [hfeed]
      exact ih h

theorem fetchExtent_of_ok {cursor next : Nat} {instruction : Instruction}
    (h : image.fetch cursor = .ok (instruction, next)) : image.fetchExtent cursor = next :=
  extentFrom_of_ok h

/-- At least one byte is looked at, if there is one: no opcode can be told from nothing. -/
theorem lt_extentFrom (image : Image) (left : Nat) (d : Decoder) (cursor : Nat) :
    cursor < image.extentFrom (left + 1) d cursor := by
  induction left generalizing d cursor with
  | zero =>
    rw [extentFrom]
    split
    · exact Nat.lt_succ_self cursor
    · exact Nat.lt_succ_self cursor
  | succ left ih =>
    rw [extentFrom]
    split
    · exact Nat.lt_of_succ_lt (ih _ _)
    · exact Nat.lt_succ_self cursor

theorem lt_fetchExtent {cursor : Nat} (h : cursor < image.size) :
    cursor < image.fetchExtent cursor := by
  obtain ⟨left, hleft⟩ := Nat.exists_eq_succ_of_ne_zero (Nat.sub_ne_zero_of_lt h)
  rw [fetchExtent, hleft]
  exact image.lt_extentFrom left .boundary cursor

/-- What comes of a fetch depends on the bytes that are looked at only. The induction is on the
bytes that are left, for any state of the decoder. -/
theorem fetchFrom_congr_of_extent {image' : Image} {left : Nat} {d : Decoder} {cursor : Nat}
    (hbytes : ∀ k, cursor ≤ k → k < image.extentFrom left d cursor →
      image'.byte k = image.byte k) :
    image'.fetchFrom left d cursor = image.fetchFrom left d cursor := by
  induction left generalizing d cursor with
  | zero => rfl
  | succ left ih =>
    rw [fetchFrom, fetchFrom, hbytes cursor (Nat.le_refl _) (image.lt_extentFrom left d cursor)]
    rw [extentFrom] at hbytes
    rcases hfeed : d.feed (image.byte cursor) with ⟨_ | instruction | opcode, d'⟩
    · rw [hfeed] at hbytes
      exact ih fun k hk => hbytes k (Nat.le_of_succ_le hk)
    · rfl
    · rfl

/-- Fetching depends on the bytes **up to the extent** of the instruction only, whether or not it
succeeds. -/
theorem fetch_congr_of_extent {image' : Image} (hsize : image'.size = image.size) {cursor : Nat}
    (hbytes : ∀ k, cursor ≤ k → k < image.fetchExtent cursor → image'.byte k = image.byte k) :
    image'.fetch cursor = image.fetch cursor := by
  rw [fetch, hsize]
  exact fetchFrom_congr_of_extent hbytes

/-- **Fetching** an instruction depends on its own bytes only, and on the size of the image, which
decides whether it runs past the end. -/
theorem fetch_congr {image' : Image} {cursor next : Nat} {instruction : Instruction}
    (hsize : image'.size = image.size) (h : image.fetch cursor = .ok (instruction, next))
    (hbytes : ∀ k, cursor ≤ k → k < next → image'.byte k = image.byte k) :
    image'.fetch cursor = .ok (instruction, next) := by
  rw [← fetchExtent_of_ok h] at hbytes
  exact (fetch_congr_of_extent hsize hbytes).trans h

/-! ### Instructions of a cut image -/

theorem fetchFrom_take (image : Image) (count left : Nat) (d : Decoder) (cursor : Nat) :
    (image.take count).fetchFrom left d cursor = image.fetchFrom left d cursor := by
  induction left generalizing d cursor with
  | zero => rfl
  | succ left ih =>
    have hbyte : (image.take count).byte cursor = image.byte cursor := rfl
    rw [fetchFrom, fetchFrom, hbyte]
    split
    · rfl
    · rfl
    · exact ih _ _

/-- Fewer bytes are enough for an instruction **exactly up to its extent**: with as many as that the
fetch is the same, and with fewer it runs past the end. -/
theorem fetchFrom_of_lt {left fewer : Nat} (h : fewer < left) (d : Decoder) (cursor : Nat) :
    image.fetchFrom fewer d cursor =
      if image.extentFrom left d cursor ≤ cursor + fewer then image.fetchFrom left d cursor
      else .error .overrun := by
  induction fewer generalizing left d cursor with
  | zero =>
    obtain ⟨left, rfl⟩ := Nat.exists_eq_succ_of_ne_zero (Nat.ne_of_gt h)
    have hlt : cursor + 0 < image.extentFrom (left + 1) d cursor :=
      image.lt_extentFrom left d cursor
    rw [if_neg (Nat.not_le.mpr hlt), fetchFrom]
  | succ fewer ih =>
    obtain ⟨left, rfl⟩ := Nat.exists_eq_succ_of_ne_zero (Nat.ne_zero_of_lt h)
    rw [fetchFrom, fetchFrom, extentFrom]
    have hone : cursor + 1 ≤ cursor + (fewer + 1) := Nat.add_le_add_left (by omega) cursor
    -- a byte that completes or breaks off the instruction is the last one that is looked at
    rcases hfeed : d.feed (image.byte cursor) with ⟨_ | instruction | opcode, d'⟩
    · simp only [ih (Nat.lt_of_succ_lt_succ h), Nat.add_assoc, Nat.add_comm 1 fewer]
    · simp only [if_pos hone]
    · simp only [if_pos hone]

/-- **Fetching** from an image that is cut somewhere after the cursor: the same as before, unless
the cut goes through the instruction. -/
theorem fetch_take {count cursor : Nat} (hcursor : cursor < count) (hcount : count < image.size) :
    (image.take count).fetch cursor =
      if image.fetchExtent cursor ≤ count then image.fetch cursor else .error .overrun := by
  have hsize : (image.take count).size = count := Nat.min_eq_left (Nat.le_of_lt hcount)
  have hleft : count - cursor < image.size - cursor := by omega
  have hcut : cursor + (count - cursor) = count := Nat.add_sub_cancel' (Nat.le_of_lt hcursor)
  rw [fetch, hsize, fetchFrom_take, fetchFrom_of_lt hleft, hcut]
  rfl

/-! ### Blocks -/

/-- The **extent of a block** that is read from `cursor` on: the index after the last byte that is
looked at. After the first instruction at most `budget` more are read. -/
def extent (image : Image) : (budget cursor : Nat) → Nat
  | budget, cursor =>
    match image.fetch cursor with
    | .error _ => image.fetchExtent cursor
    | .ok (instruction, next) =>
      if !instruction.operation.isHandled || instruction.operation.endsBlock then next
      else
        match budget with
        | 0 => next
        | budget + 1 => if image.size ≤ next then next else image.extent budget next

theorem extent_of_error {cursor : Nat} {e : FetchError} (hfetch : image.fetch cursor = .error e)
    (budget : Nat) : image.extent budget cursor = image.fetchExtent cursor := by
  rw [extent, hfetch]

section First

variable {cursor next : Nat} {instruction : Instruction}
  (hfetch : image.fetch cursor = .ok (instruction, next))

include hfetch

/-- The first instruction is the last one that is looked at, if it cannot be compiled. -/
theorem extent_of_not_isHandled (hhandled : instruction.operation.isHandled = false)
    (budget : Nat) : image.extent budget cursor = next := by
  rw [extent, hfetch]
  simp only [hhandled, Bool.not_false, Bool.true_or, if_true]

/-- The first instruction is the last one, if it ends the block. -/
theorem extent_of_endsBlock (hends : instruction.operation.endsBlock = true) (budget : Nat) :
    image.extent budget cursor = next := by
  rw [extent, hfetch]
  simp only [hends, Bool.or_true, if_true]

variable (hhandled : instruction.operation.isHandled = true)
  (hends : instruction.operation.endsBlock = false)

include hhandled hends

theorem extent_zero : image.extent 0 cursor = next := by
  rw [extent, hfetch]
  simp only [hhandled, hends, Bool.not_true, Bool.or_self, Bool.false_eq_true, if_false]

theorem extent_succ (budget : Nat) :
    image.extent (budget + 1) cursor =
      if image.size ≤ next then next else image.extent budget next := by
  rw [extent, hfetch]
  simp only [hhandled, hends, Bool.not_true, Bool.or_self, Bool.false_eq_true, if_false]

end First

/-- A block extends to the end of its first instruction, or control falls through that instruction
and the block extends to the end of what is read after it. -/
theorem extent_cases (image : Image) (budget cursor : Nat) :
    image.extent budget cursor = image.fetchExtent cursor ∨
      ∃ fewer instruction next, budget = fewer + 1 ∧
        image.fetch cursor = .ok (instruction, next) ∧
        instruction.operation.isHandled = true ∧ instruction.operation.endsBlock = false ∧
        next < image.size ∧ image.extent budget cursor = image.extent fewer next := by
  cases hfetch : image.fetch cursor with
  | error e => exact .inl (extent_of_error hfetch budget)
  | ok fetched =>
    obtain ⟨instruction, next⟩ := fetched
    rw [fetchExtent_of_ok hfetch]
    cases hhandled : instruction.operation.isHandled with
    | false => exact .inl (extent_of_not_isHandled hfetch hhandled budget)
    | true =>
      cases hends : instruction.operation.endsBlock with
      | true => exact .inl (extent_of_endsBlock hfetch hends budget)
      | false =>
        cases budget with
        | zero => exact .inl (extent_zero hfetch hhandled hends)
        | succ budget =>
          rw [extent_succ hfetch hhandled hends]
          by_cases hlast : image.size ≤ next
          · exact .inl (if_pos hlast)
          · have hlt : next < image.size := Nat.lt_of_not_le hlast
            exact .inr ⟨budget, instruction, next, rfl, rfl, hhandled, hends, hlt, if_neg hlast⟩

/-- Nothing after the first instruction is looked at, if it is the last one. -/
theorem extent_of_last {budget cursor next : Nat} {instruction : Instruction}
    (hfetch : image.fetch cursor = .ok (instruction, next))
    (hlast : instruction.operation.endsBlock = true ∨ budget = 0 ∨ image.size ≤ next) :
    image.extent budget cursor = next := by
  rcases image.extent_cases budget cursor with hextent |
    ⟨fewer, _, _, rfl, hfetch', -, hends, hnext, -⟩
  · rw [hextent, fetchExtent_of_ok hfetch]
  · rw [hfetch] at hfetch'
    cases hfetch'
    rcases hlast with hlast | hlast | hlast
    · rw [hends] at hlast
      cases hlast
    · cases hlast
    · exact absurd hnext (Nat.not_lt.mpr hlast)

/-- A block is looked at from its first byte on, if there is one. -/
theorem lt_extent (budget : Nat) {cursor : Nat} (hcursor : cursor < image.size) :
    cursor < image.extent budget cursor := by
  induction budget generalizing cursor with
  | zero =>
    rcases image.extent_cases 0 cursor with hextent | ⟨fewer, _, _, hfewer, _⟩
    · rw [hextent]
      exact lt_fetchExtent hcursor
    · cases hfewer
  | succ budget ih =>
    rcases image.extent_cases (budget + 1) cursor with hextent |
      ⟨fewer, instruction, next, hfewer, hfetch, -, -, hnext, hextent⟩
    · rw [hextent]
      exact lt_fetchExtent hcursor
    · obtain rfl : budget = fewer := Nat.succ.inj hfewer
      rw [hextent]
      exact Nat.lt_trans (fetch_ok hfetch).2.1 (ih hnext)

/-- A block extends to the end of its first instruction at least. -/
theorem fetchExtent_le_extent (image : Image) (budget cursor : Nat) :
    image.fetchExtent cursor ≤ image.extent budget cursor := by
  rcases image.extent_cases budget cursor with hextent |
    ⟨fewer, instruction, next, -, hfetch, -, -, hnext, hextent⟩
  · exact Nat.le_of_eq hextent.symm
  · rw [hextent, fetchExtent_of_ok hfetch]
    exact Nat.le_of_lt (lt_extent fewer hnext)

/-- A block that can be read **ends at its extent**: nothing behind its last instruction is looked
at. -/
theorem extent_of_scan {budget cursor : Nat} {ending : Ending}
    (h : (image.scan budget cursor).outcome = .ok ending) :
    image.extent budget cursor = ending.cursor := by
  induction budget using Nat.strongRecOn generalizing cursor with
  | ind budget ih =>
    obtain ⟨instruction, next, hfetch, hhandled, ⟨hlast, rfl, -⟩ |
      ⟨fewer, rfl, hends, hnext, hrest, -⟩⟩ := scan_cases_of_ok h
    · exact extent_of_last hfetch hlast
    · rw [extent_succ hfetch hhandled hends, if_neg (Nat.not_le.mpr hnext)]
      exact ih fewer (Nat.lt_succ_self fewer) hrest

/-- Images that agree on the **first instruction** and on what is read after it are read alike. The
images may differ in size, as long as the first instruction is the last of both or of neither. -/
theorem scan_eq_of_fetch_eq {image' : Image} {budget cursor : Nat}
    (hsame : image'.fetch cursor = image.fetch cursor)
    (hrest : ∀ fewer instruction next, budget = fewer + 1 →
      image.fetch cursor = .ok (instruction, next) → instruction.operation.isHandled = true →
      instruction.operation.endsBlock = false →
      (image'.size ≤ next ↔ image.size ≤ next) ∧
        (next < image.size → image'.scan fewer next = image.scan fewer next)) :
    image'.scan budget cursor = image.scan budget cursor := by
  cases hfetch : image.fetch cursor with
  | error e => rw [scan_of_error (hsame.trans hfetch), scan_of_error hfetch]
  | ok fetched =>
    obtain ⟨instruction, next⟩ := fetched
    have hfetch' := hsame.trans hfetch
    cases hhandled : instruction.operation.isHandled with
    | false => rw [scan_of_not_isHandled hfetch' hhandled, scan_of_not_isHandled hfetch hhandled]
    | true =>
      cases hends : instruction.operation.endsBlock with
      | true => rw [scan_ends hfetch' hhandled hends, scan_ends hfetch hhandled hends]
      | false =>
        cases budget with
        | zero => rw [scan_zero hfetch' hhandled hends, scan_zero hfetch hhandled hends]
        | succ fewer =>
          obtain ⟨hlast, hscan⟩ := hrest fewer instruction next rfl hfetch hhandled hends
          rw [scan_succ hfetch' hhandled hends, scan_succ hfetch hhandled hends]
          by_cases hsize : image.size ≤ next
          · rw [if_pos hsize, if_pos (hlast.mpr hsize)]
          · rw [if_neg hsize, if_neg fun h => hsize (hlast.mp h), hscan (Nat.lt_of_not_le hsize)]

/-- Reading a block depends on the bytes **up to its extent** only, whether or not it succeeds. The
induction is on the number of instructions that are allowed. -/
theorem scan_congr_of_extent {image' : Image} (hsize : image'.size = image.size)
    {budget cursor : Nat}
    (hbytes : ∀ k, cursor ≤ k → k < image.extent budget cursor → image'.byte k = image.byte k) :
    image'.scan budget cursor = image.scan budget cursor := by
  induction budget using Nat.strongRecOn generalizing cursor with
  | ind budget ih =>
    have hfirst := image.fetchExtent_le_extent budget cursor
    have hsame := fetch_congr_of_extent hsize fun k hk hlt =>
      hbytes k hk (Nat.lt_of_lt_of_le hlt hfirst)
    refine scan_eq_of_fetch_eq hsame ?_
    rintro fewer instruction next rfl hfetch hhandled hends
    refine ⟨by rw [hsize], fun hnext => ih fewer (Nat.lt_succ_self fewer) fun k hk => ?_⟩
    have hlt := (fetch_ok hfetch).2.1
    rw [extent_succ hfetch hhandled hends, if_neg (Nat.not_le.mpr hnext)] at hbytes
    exact hbytes k (Nat.le_of_lt (Nat.lt_of_lt_of_le hlt hk))

/-- **Reading a block** depends on its own bytes only, since it ends at its extent. -/
theorem scan_congr {image' : Image} {budget cursor : Nat} {ending : Ending}
    (hsize : image'.size = image.size) (h : (image.scan budget cursor).outcome = .ok ending)
    (hbytes : ∀ k, cursor ≤ k → k < ending.cursor → image'.byte k = image.byte k) :
    image'.scan budget cursor = image.scan budget cursor := by
  rw [← extent_of_scan h] at hbytes
  exact scan_congr_of_extent hsize hbytes

/-! ### Blocks of a cut image -/

section Take

variable {count : Nat} (hcount : count < image.size)

include hcount

/-- An image that is cut **at or after the extent** of a block reads the same. -/
theorem scan_take {budget cursor : Nat} (hcursor : cursor < count)
    (hextent : image.extent budget cursor ≤ count) :
    (image.take count).scan budget cursor = image.scan budget cursor := by
  have hsize : (image.take count).size = count := Nat.min_eq_left (Nat.le_of_lt hcount)
  induction budget using Nat.strongRecOn generalizing cursor with
  | ind budget ih =>
    have hfirst := Nat.le_trans (image.fetchExtent_le_extent budget cursor) hextent
    have hsame : (image.take count).fetch cursor = image.fetch cursor := by
      rw [fetch_take hcursor hcount, if_pos hfirst]
    refine scan_eq_of_fetch_eq hsame ?_
    rintro fewer instruction next rfl hfetch hhandled hends
    rw [fetchExtent_of_ok hfetch] at hfirst
    have hnext : next < image.size := Nat.lt_of_le_of_lt hfirst hcount
    rw [extent_succ hfetch hhandled hends, if_neg (Nat.not_le.mpr hnext)] at hextent
    -- what is read next starts before the cut, since its extent does not pass it
    have hlt : next < count := Nat.lt_of_lt_of_le (lt_extent fewer hnext) hextent
    rw [hsize]
    exact ⟨iff_of_false (Nat.not_le.mpr hlt) (Nat.not_le.mpr hnext),
      fun _ => ih fewer (Nat.lt_succ_self fewer) hlt hextent⟩

/-- An instruction that the cut goes through runs past the end, and so does the block that starts
with it. -/
theorem overrun_take {cursor : Nat} (hcursor : cursor < count)
    (hpast : count < image.fetchExtent cursor) (budget : Nat) :
    ((image.take count).scan budget cursor).outcome =
      .error (.overrun (BitVec.ofNat 16 cursor)) := by
  have hoverrun : (image.take count).fetch cursor = .error .overrun := by
    rw [fetch_take hcursor hcount, if_neg (Nat.not_le.mpr hpast)]
  rw [scan_of_error hoverrun]
  rfl

/-- An image that is cut **before the extent** of a block comes to its end while it is read: control
falls through there, or the instruction at some index before the cut runs past it. -/
theorem scan_take_of_lt {budget cursor : Nat} (hcursor : cursor < count)
    (hextent : count < image.extent budget cursor) :
    ((image.take count).scan budget cursor).outcome = .ok ⟨count, true⟩ ∨
      ∃ last < count, count < image.fetchExtent last ∧
        ((image.take count).scan budget cursor).outcome =
          .error (.overrun (BitVec.ofNat 16 last)) := by
  have hsize : (image.take count).size = count := Nat.min_eq_left (Nat.le_of_lt hcount)
  induction budget generalizing cursor with
  | zero =>
    rcases image.extent_cases 0 cursor with hfirst | ⟨fewer, _, _, hfewer, _⟩
    · have hpast : count < image.fetchExtent cursor := hfirst ▸ hextent
      exact .inr ⟨cursor, hcursor, hpast, overrun_take hcount hcursor hpast 0⟩
    · cases hfewer
  | succ budget ih =>
    by_cases hpast : count < image.fetchExtent cursor
    · exact .inr ⟨cursor, hcursor, hpast, overrun_take hcount hcursor hpast _⟩
    have hfirst : image.fetchExtent cursor ≤ count := Nat.le_of_not_lt hpast
    rcases image.extent_cases (budget + 1) cursor with hextent' |
      ⟨fewer, instruction, next, hfewer, hfetch, hhandled, hends, hnext, hmore⟩
    · exact absurd (hextent' ▸ hextent) hpast
    obtain rfl : budget = fewer := Nat.succ.inj hfewer
    have hfetch' : (image.take count).fetch cursor = .ok (instruction, next) := by
      rw [fetch_take hcursor hcount, if_pos hfirst, hfetch]
    rw [fetchExtent_of_ok hfetch] at hfirst
    rw [scan_succ hfetch' hhandled hends, hsize]
    rcases Nat.lt_or_eq_of_le hfirst with hlt | rfl
    · rw [if_neg (Nat.not_le.mpr hlt)]
      exact ih hlt (hmore ▸ hextent)
    · rw [if_pos (Nat.le_refl next)]
      exact .inl rfl

end Take

end Dynarec.Guest.Image
