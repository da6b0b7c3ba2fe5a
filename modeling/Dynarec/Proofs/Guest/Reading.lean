import Dynarec.Proofs.Guest.Extent

/-!
# Which bytes are read

A reader that **notes** the index of every byte it looks at (`Image.noteScan`), and is `Image.scan`
otherwise (`snd_noteScan`). It looks at the bytes from the cursor to the extent of the block one
after another, each of them once (`fst_noteScan`).
-/

namespace Dynarec.Guest.Image

variable {image : Image}

/-! ### Instructions -/

/-- Feeds bytes to a decoder and **notes their indices**. -/
def noteFrom (image : Image) : (left : Nat) → Decoder → (cursor : Nat) →
    List Nat × Except FetchError (Instruction × Nat)
  | 0, _, _ => ([], .error .overrun)
  | left + 1, decoder, cursor =>
    match decoder.feed (image.byte cursor) with
    | (.complete instruction, _) => ([cursor], .ok (instruction, cursor + 1))
    | (.unknown opcode, _) => ([cursor], .error (.unknownOpcode opcode))
    | (.pending, decoder) =>
      let rest := image.noteFrom left decoder (cursor + 1)
      (cursor :: rest.1, rest.2)

/-- Fetches an instruction and notes the indices of its bytes. -/
def noteFetch (image : Image) (cursor : Nat) : List Nat × Except FetchError (Instruction × Nat) :=
  image.noteFrom (image.size - cursor) .boundary cursor

/-- Taking notes **does not change what is read**: the decoder is fed the same bytes. -/
theorem snd_noteFrom (image : Image) (left : Nat) (d : Decoder) (cursor : Nat) :
    (image.noteFrom left d cursor).2 = image.fetchFrom left d cursor := by
  induction left generalizing d cursor with
  | zero => rfl
  | succ left ih =>
    rw [noteFrom, fetchFrom]
    rcases d.feed (image.byte cursor) with ⟨_ | instruction | opcode, d'⟩
    · exact ih d' (cursor + 1)
    · rfl
    · rfl

theorem le_extentFrom (image : Image) (left : Nat) (d : Decoder) (cursor : Nat) :
    cursor ≤ image.extentFrom left d cursor := by
  cases left with
  | zero => exact Nat.le_refl cursor
  | succ left => exact Nat.le_of_lt (image.lt_extentFrom left d cursor)

/-- Indices up to a place and from there on. -/
theorem range'_append_range' {a b c : Nat} (hab : a ≤ b) (hbc : b ≤ c) :
    List.range' a (b - a) ++ List.range' b (c - b) = List.range' a (c - a) := by
  have happend := List.range'_append_1 (s := a) (m := b - a) (n := c - b)
  rwa [Nat.add_sub_cancel' hab, show b - a + (c - b) = c - a by omega] at happend

/-- The bytes of an instruction are looked at **one after another**, up to its extent, each of them
once. -/
theorem fst_noteFrom (image : Image) (left : Nat) (d : Decoder) (cursor : Nat) :
    (image.noteFrom left d cursor).1 =
      List.range' cursor (image.extentFrom left d cursor - cursor) := by
  induction left generalizing d cursor with
  | zero => rw [noteFrom, extentFrom, Nat.sub_self, List.range'_zero]
  | succ left ih =>
    have hone : List.range' cursor (cursor + 1 - cursor) = [cursor] := by
      rw [Nat.add_sub_cancel_left, List.range'_one]
    rw [noteFrom, extentFrom]
    rcases d.feed (image.byte cursor) with ⟨_ | instruction | opcode, d'⟩
    · dsimp only
      rw [ih, ← range'_append_range' (Nat.le_add_right cursor 1)
        (image.le_extentFrom left d' (cursor + 1)), hone]
      rfl
    · exact hone.symm
    · exact hone.symm

theorem snd_noteFetch (image : Image) (cursor : Nat) :
    (image.noteFetch cursor).2 = image.fetch cursor := image.snd_noteFrom _ _ cursor

theorem fst_noteFetch (image : Image) (cursor : Nat) :
    (image.noteFetch cursor).1 = List.range' cursor (image.fetchExtent cursor - cursor) :=
  image.fst_noteFrom _ _ cursor

/-! ### Blocks -/

/-- Reads a block and **notes the indices of its bytes**. -/
def noteScan (image : Image) : (budget cursor : Nat) → List Nat × Scan
  | budget, cursor =>
    let address := BitVec.ofNat 16 cursor
    match image.noteFetch cursor with
    | (read, .error e) => (read, ⟨[], .error (e.toScanError address)⟩)
    | (read, .ok (instruction, next)) =>
      let placed : Placed := ⟨address, instruction⟩
      if !instruction.operation.isHandled then
        (read, ⟨[placed], .error (.unhandled address instruction.operation)⟩)
      else if instruction.operation.endsBlock then (read, ⟨[placed], .ok ⟨next, false⟩⟩)
      else
        match budget with
        | 0 => (read, ⟨[placed], .ok ⟨next, true⟩⟩)
        | budget + 1 =>
          if image.size ≤ next then (read, ⟨[placed], .ok ⟨next, true⟩⟩)
          else
            let rest := image.noteScan budget next
            (read ++ rest.1, .after placed rest.2)

/-- Taking notes **does not change what is read**: the instructions are fetched from the same
places. -/
theorem snd_noteScan (image : Image) (budget cursor : Nat) :
    (image.noteScan budget cursor).2 = image.scan budget cursor := by
  induction budget using Nat.strongRecOn generalizing cursor with
  | ind budget ih =>
    rw [noteScan, scan, ← snd_noteFetch]
    rcases image.noteFetch cursor with ⟨read, e | ⟨instruction, next⟩⟩
    · rfl
    dsimp only
    split
    · rfl
    split
    · rfl
    cases budget with
    | zero => rfl
    | succ budget =>
      dsimp only
      split
      · rfl
      · rw [ih budget (Nat.lt_succ_self budget)]

/-- The bytes of a block are looked at **one after another**, up to its extent, each of them once.
The induction is on the number of instructions that are allowed. -/
theorem fst_noteScan (image : Image) (budget cursor : Nat) :
    (image.noteScan budget cursor).1 =
      List.range' cursor (image.extent budget cursor - cursor) := by
  induction budget using Nat.strongRecOn generalizing cursor with
  | ind budget ih =>
    have hread := image.fst_noteFetch cursor
    have hfetch := image.snd_noteFetch cursor
    rw [noteScan, extent, ← hfetch]
    rcases hnotes : image.noteFetch cursor with ⟨read, e | ⟨instruction, next⟩⟩
    · rw [hnotes] at hread
      exact hread
    rw [hnotes] at hread hfetch
    rw [fetchExtent_of_ok hfetch.symm] at hread
    obtain ⟨-, hlt, hle⟩ := fetch_ok hfetch.symm
    dsimp only at hread ⊢
    cases instruction.operation.isHandled with
    | false => exact hread
    | true =>
      cases instruction.operation.endsBlock with
      | true => exact hread
      | false =>
        simp only [Bool.not_true, Bool.or_self, Bool.false_eq_true, if_false]
        cases budget with
        | zero => exact hread
        | succ budget =>
          dsimp only
          by_cases hlast : image.size ≤ next
          · rw [if_pos hlast, if_pos hlast]
            exact hread
          · have hrest := lt_extent budget (Nat.lt_of_not_le hlast)
            rw [if_neg hlast, if_neg hlast, hread, ih budget (Nat.lt_succ_self budget)]
            exact range'_append_range' (Nat.le_of_lt hlt) (Nat.le_of_lt hrest)

end Dynarec.Guest.Image
