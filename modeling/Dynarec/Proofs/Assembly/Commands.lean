import Mathlib.Logic.Function.Basic
import Dynarec.Proofs.Assembly.Layout

/-!
# The code of commands

What a sequence of commands to a code stream leaves behind, said without a stream: how many bytes it
appends (`Commands.size`), where it binds a label (`Commands.target?`), which displacement fields it
appends and in which order (`Commands.branches`), which of them still wait for their label
(`Commands.pending`), and the code itself, given where labels are bound (`Commands.linked`).

All of them are walks along the commands that keep count of the offset, so each comes with a rule
for concatenation and, from it, a rule for one more command at the end.
-/

namespace Dynarec

open Host (Instruction Condition)

/-! ### Displacement fields -/

/-- The **displacement field** of the given width with a distance in it. -/
def BranchWidth.field : BranchWidth → Int → List Byte
  | short, distance => bytesLE 1 (BitVec.ofInt 8 distance)
  | near, distance => bytesLE 4 (BitVec.ofInt 32 distance)

/-- A displacement field has its width, also where the distance does not fit it. -/
@[simp]
theorem BranchWidth.length_field (width : BranchWidth) (distance : Int) :
    (width.field distance).length = width.bytes := by
  cases width <;> rfl

namespace Patch

/-- The distance from the end of a branch to `target`. -/
def distance (p : Patch) (target : Nat) : Int := (target : Int) - (p.fieldEnd : Int)

/-- Whether the field of a branch can hold the distance to `target`. Only a short branch has to
care, in code of less than 2 GiB. -/
def Reaches (p : Patch) (target : Nat) : Prop :=
  p.width = .short → -128 ≤ p.distance target ∧ p.distance target ≤ 127

instance (p : Patch) (target : Nat) : Decidable (p.Reaches target) :=
  inferInstanceAs (Decidable (_ → _))

/-- The displacement field of a branch whose label is bound as given. It holds zeros as long as the
label is not bound. -/
def field (p : Patch) : Option Nat → List Byte
  | some target => p.width.field (p.distance target)
  | none => bytesLE p.width.bytes (0 : BitVec 32)

@[simp]
theorem length_field (p : Patch) (target : Option Nat) :
    (p.field target).length = p.width.bytes := by
  cases target <;> simp [field]

/-- A field reads back as the distance that was written to it, as a signed number. Less than 2 GiB
of code keep the distance within four bytes. -/
theorem toInt_field {p : Patch} {target : Nat} (hreaches : p.Reaches target)
    (hend : p.fieldEnd < 0x80000000) (htarget : target < 0x80000000) :
    (wordLE (8 * p.width.bytes) (p.field (some target))).toInt = p.distance target := by
  have hdistance : p.distance target = (target : Int) - (p.fieldEnd : Int) := rfl
  rw [Reaches] at hreaches
  rw [field]
  generalize p.distance target = distance at *
  cases hwidth : p.width with
  | short =>
    obtain ⟨hleast, hgreatest⟩ := hreaches hwidth
    calc (wordLE (8 * 1) (bytesLE 1 (BitVec.ofInt 8 distance))).toInt
      _ = (BitVec.ofInt 8 distance).toInt := by rw [wordLE_bytesLE _ (by decide)]
      _ = distance := by
        rw [BitVec.toInt_ofInt]
        exact Int.bmod_eq_of_le (by omega) (by omega)
  | near =>
    calc (wordLE (8 * 4) (bytesLE 4 (BitVec.ofInt 32 distance))).toInt
      _ = (BitVec.ofInt 32 distance).toInt := by rw [wordLE_bytesLE _ (by decide)]
      _ = distance := by
        rw [BitVec.toInt_ofInt]
        exact Int.bmod_eq_of_le (by omega) (by omega)

end Patch

namespace Assembly

/-! ### What commands append -/

namespace Command

/-- The bytes that a command appends, the displacement field of a branch filled with zeros. -/
def bytes : Command → List Byte
  | emit i => i.encode
  | branch condition width _ => (Instruction.branch condition width 0).encode
  | _ => []

/-- The displacement field that a command at an offset appends. -/
def patch? (offset : Nat) : Command → Option Patch
  | branch condition width label =>
    some ⟨offset + (Instruction.branchOpcode condition width).length, width, label⟩
  | _ => none

/-- The label that a command is about. -/
def label? : Command → Option Nat
  | bind label => some label
  | branch _ _ label => some label
  | _ => none

/-- The bytes of a command at an offset, if the labels that are bound are bound as `target?` says.
The field of a branch to any other label holds zeros. -/
def linked (target? : Nat → Option Nat) (offset : Nat) : Command → List Byte
  | branch condition width label =>
    Instruction.branchOpcode condition width ++
      Patch.field ⟨offset + (Instruction.branchOpcode condition width).length, width, label⟩
        (target? label)
  | c => c.bytes

/-- The bytes of a command that is no branch do not depend on where labels are bound. -/
theorem linked_of_patch?_eq_none {c : Command} {offset : Nat} (h : c.patch? offset = none)
    (target? : Nat → Option Nat) : c.linked target? offset = c.bytes := by
  cases c with
  | branch condition width label => cases h
  | _ => rfl

/-- The bytes of a branch are its opcode and its field, and only the field depends on where its
label is bound. -/
theorem linked_of_patch?_eq_some {c : Command} {offset : Nat} {p : Patch}
    (h : c.patch? offset = some p) :
    ∃ opcode : List Byte, p.offset = offset + opcode.length ∧
      c.bytes = opcode ++ p.field none ∧
      ∀ target?, c.linked target? offset = opcode ++ p.field (target? p.label) := by
  cases c with
  | branch condition width label =>
    cases h
    exact ⟨_, rfl, Instruction.encodeBranch_eq _ _ _, fun _ => rfl⟩
  | _ => cases h

/-- Filling in a field does not change its length. -/
theorem length_linked (target? : Nat → Option Nat) (offset : Nat) (c : Command) :
    (c.linked target? offset).length = c.bytes.length := by
  cases hpatch : c.patch? offset with
  | none => rw [linked_of_patch?_eq_none hpatch]
  | some p =>
    obtain ⟨opcode, -, hbytes, hlinked⟩ := linked_of_patch?_eq_some hpatch
    rw [hlinked, hbytes, List.length_append, List.length_append, p.length_field, p.length_field]

/-- The bytes of a command depend on the label of its branch only, so binding another label leaves
them. -/
theorem linked_update {target? : Nat → Option Nat} {label : Nat} {c : Command} {offset : Nat}
    (h : ∀ p ∈ c.patch? offset, p.label ≠ label) (target : Option Nat) :
    c.linked (Function.update target? label target) offset = c.linked target? offset := by
  cases hpatch : c.patch? offset with
  | none => rw [linked_of_patch?_eq_none hpatch, linked_of_patch?_eq_none hpatch]
  | some p =>
    obtain ⟨opcode, -, -, hlinked⟩ := linked_of_patch?_eq_some hpatch
    rw [hlinked, hlinked, Function.update_of_ne (h p hpatch)]

end Command

namespace Commands

/-- The number of bytes that commands append. -/
def size (commands : List Command) : Nat := (commands.flatMap Command.bytes).length

/-- The number of labels that commands create. -/
def created (commands : List Command) : Nat := commands.count .createLabel

/-- Where commands from an offset on first bind a label. -/
def targetFrom (label : Nat) : (offset : Nat) → List Command → Option Nat
  | _, [] => none
  | offset, c :: cs =>
    if c = .bind label then some offset else targetFrom label (offset + c.bytes.length) cs

/-- Where commands **bind** a label, if they do. -/
def target? (commands : List Command) (label : Nat) : Option Nat := targetFrom label 0 commands

/-- The displacement fields of the **branches** among commands from an offset on, in order. -/
def branches : (offset : Nat) → List Command → List Patch
  | _, [] => []
  | offset, c :: cs => (c.patch? offset).toList ++ branches (offset + c.bytes.length) cs

/-- The branches whose label is never bound. -/
def pending (commands : List Command) : List Patch :=
  (branches 0 commands).filter fun p => (target? commands p.label).isNone

/-- The bytes of commands from an offset on, if labels are bound as `target?` says. -/
def linked (target? : Nat → Option Nat) : (offset : Nat) → List Command → List Byte
  | _, [] => []
  | offset, c :: cs => c.linked target? offset ++ linked target? (offset + c.bytes.length) cs

/-- Whether commands only use labels that they have created before. -/
def OwnLabels (commands : List Command) : Prop :=
  ∀ k, ∀ h : k < commands.length, ∀ label ∈ commands[k].label?, label < created (commands.take k)

instance (commands : List Command) : Decidable (OwnLabels commands) :=
  inferInstanceAs (Decidable (∀ k, ∀ h : k < commands.length, ∀ label ∈ commands[k].label?,
    label < created (commands.take k)))

@[simp]
theorem size_nil : size [] = 0 := rfl

@[simp]
theorem size_cons (c : Command) (cs : List Command) : size (c :: cs) = c.bytes.length + size cs :=
  List.length_append

@[simp]
theorem size_append (cs ds : List Command) : size (cs ++ ds) = size cs + size ds := by
  rw [size, List.flatMap_append, List.length_append, size, size]

/-- A command among others names a label that one of those before it has created. -/
theorem OwnLabels.of_split {before after : List Command} {c : Command}
    (h : OwnLabels (before ++ c :: after)) {label : Nat} (hlabel : c.label? = some label) :
    label < created before := by
  have := h before.length (by simp) label (by simpa using hlabel)
  rwa [List.take_left] at this

/-- Commands that only use their own labels still do so when the last ones are left out. -/
theorem OwnLabels.left {cs ds : List Command} (h : OwnLabels (cs ++ ds)) : OwnLabels cs := by
  intro k hk label hlabel
  have := h k (by rw [List.length_append]; omega) label (by rwa [List.getElem_append_left hk])
  rwa [List.take_append_of_le_length (Nat.le_of_lt hk)] at this

/-- A label is bound where it is bound first. -/
theorem targetFrom_append (label offset : Nat) (cs ds : List Command) :
    targetFrom label offset (cs ++ ds) =
      (targetFrom label offset cs).or (targetFrom label (offset + size cs) ds) := by
  induction cs generalizing offset with
  | nil => rfl
  | cons c cs ih =>
    rw [List.cons_append, targetFrom, targetFrom]
    split
    · rfl
    · rw [ih, size_cons, Nat.add_assoc]

/-- The branches of the second one of two sequences stand behind all bytes of the first one. -/
theorem branches_append (offset : Nat) (cs ds : List Command) :
    branches offset (cs ++ ds) = branches offset cs ++ branches (offset + size cs) ds := by
  induction cs generalizing offset with
  | nil => rfl
  | cons c cs ih =>
    rw [List.cons_append, branches, branches, ih, size_cons, Nat.add_assoc, List.append_assoc]

/-- The bytes of two sequences stand one behind the other, for any place of the labels. -/
theorem linked_append (target? : Nat → Option Nat) (offset : Nat) (cs ds : List Command) :
    linked target? offset (cs ++ ds) =
      linked target? offset cs ++ linked target? (offset + size cs) ds := by
  induction cs generalizing offset with
  | nil => rfl
  | cons c cs ih =>
    rw [List.cons_append, linked, linked, ih, size_cons, Nat.add_assoc, List.append_assoc]

theorem length_linked (target? : Nat → Option Nat) (offset : Nat) (cs : List Command) :
    (linked target? offset cs).length = size cs := by
  induction cs generalizing offset with
  | nil => rfl
  | cons c cs ih => rw [linked, List.length_append, c.length_linked, ih, size_cons]

/-- Displacement fields lie inside the code of the commands that they belong to. -/
theorem fieldEnd_le_of_mem_branches {p : Patch} {offset : Nat} {cs : List Command}
    (hp : p ∈ branches offset cs) : p.fieldEnd ≤ offset + size cs := by
  induction cs generalizing offset with
  | nil => cases hp
  | cons c cs ih =>
    rw [size_cons]
    rcases List.mem_append.mp hp with hhead | htail
    · obtain ⟨opcode, hoffset, hbytes, -⟩ :=
        Command.linked_of_patch?_eq_some (Option.mem_toList.mp hhead)
      rw [Patch.fieldEnd, hoffset, hbytes, List.length_append, p.length_field]
      omega
    · have := ih htail
      omega

/-- A label is bound inside the code or at its end. -/
theorem target?_le {cs : List Command} {label target : Nat} (h : target? cs label = some target) :
    target ≤ size cs := by
  suffices hfrom : ∀ offset, targetFrom label offset cs = some target →
      target ≤ offset + size cs by
    have := hfrom 0 h
    omega
  clear h
  induction cs with
  | nil => rintro _ ⟨⟩
  | cons c cs ih =>
    intro offset h
    rw [targetFrom] at h
    rw [size_cons]
    split at h
    · cases h
      omega
    · have := ih _ h
      omega

/-! ### One more command -/

variable {cs : List Command}

/-- A command that binds no label leaves the labels where they are. -/
theorem target?_snoc {c : Command} (hc : ∀ label, c ≠ .bind label) :
    target? (cs ++ [c]) = target? cs := by
  funext label
  rw [target?, targetFrom_append, targetFrom, if_neg (hc label), targetFrom, Option.or_none,
    target?]

/-- A label that is bound for the first time is bound at the end of the code so far. -/
theorem target?_snoc_bind {label : Nat} (hunbound : target? cs label = none) :
    target? (cs ++ [.bind label]) = Function.update (target? cs) label (some (size cs)) := by
  funext l
  rw [target?, targetFrom_append, targetFrom, Nat.zero_add]
  rcases eq_or_ne l label with rfl | hne
  · rw [if_pos rfl, ← target?, hunbound, Function.update_self, Option.none_or]
  · rw [if_neg fun h => hne (Command.bind.inj h).symm, targetFrom, Option.or_none,
      Function.update_of_ne hne, target?]

/-- One more command adds its branch, if it is one, behind the others. -/
theorem branches_snoc {c : Command} :
    branches 0 (cs ++ [c]) = branches 0 cs ++ (c.patch? (size cs)).toList := by
  rw [branches_append, branches, branches, List.append_nil, Nat.zero_add]

/-- One more command adds its bytes at the end. -/
theorem linked_snoc (target? : Nat → Option Nat) {c : Command} :
    linked target? 0 (cs ++ [c]) = linked target? 0 cs ++ c.linked target? (size cs) := by
  rw [linked_append, linked, linked, List.append_nil, Nat.zero_add]

/-- A branch is pending as long as its label is not bound. One whose label is bound already never
is. -/
theorem pending_snoc {c : Command} (hc : ∀ label, c ≠ .bind label) :
    pending (cs ++ [c]) = pending cs ++
      (c.patch? (size cs)).toList.filter fun p => (target? cs p.label).isNone := by
  rw [pending, pending, target?_snoc hc, branches_snoc, List.filter_append]

/-- Binding a label takes its branches, and no others, from the pending ones. -/
theorem pending_snoc_bind {label : Nat} (hunbound : target? cs label = none) :
    pending (cs ++ [.bind label]) = (pending cs).filter (·.label ≠ label) := by
  have hbranches : branches 0 (cs ++ [.bind label]) = branches 0 cs :=
    branches_snoc.trans (List.append_nil _)
  rw [pending, pending, hbranches, target?_snoc_bind hunbound, List.filter_filter]
  refine List.filter_congr fun p _ => ?_
  rcases eq_or_ne p.label label with heq | hne
  · simp [heq]
  · simp [hne]

/-- The pending branches to a label that is not bound are all branches to it, in the order in which
they were appended. -/
theorem filter_pending {label : Nat} (hunbound : target? cs label = none) :
    (pending cs).filter (·.label = label) = (branches 0 cs).filter (·.label = label) := by
  rw [pending, List.filter_filter]
  refine List.filter_congr fun p _ => ?_
  rcases eq_or_ne p.label label with heq | hne
  · simp [heq, hunbound]
  · simp [hne]

end Commands

end Assembly

end Dynarec
