import Dynarec.Proofs.Assembly.Commands

/-!
# Branches reach their labels

A code stream fills in the displacement fields of its branches at two different times, from a list
of patches that is split whenever a label is bound. What it holds is nevertheless a plain function
of the commands that it has carried out: their bytes one after another, with a field filled in if
its label has been bound anywhere among them, and the branches whose label has not been bound as
patches, in the order in which they were appended.

`Reflects` says this of a stream. One command keeps it unless it **breaks** (`Breaks`), and a
command that breaks is a fault; `run_reflects` carries it to whole command sequences. What it means
for the finished code is `branches_reach_labels`: every displacement field, read back as a signed
number, leads from the end of its branch to its label (`Links`).
-/

namespace Dynarec

open Host (Instruction Condition)

namespace Assembly

/-! ### Filling in fields -/

namespace CodeStream

open Commands

/-- A branch that reaches its label has the distance between them as its field. -/
theorem displacement_of_reaches {p : Patch} {target : Nat} (hreaches : p.Reaches target)
    (hend : p.fieldEnd < 0x80000000) (htarget : target < 0x80000000) :
    displacement p target = .ok (p.field (some target)) := by
  obtain ⟨offset, width, label⟩ := p
  cases width with
  | short => exact if_pos (hreaches rfl)
  | near => exact if_pos (by omega)

/-- A branch that does not reach its label is a fault. Only short branches fail to reach, since near
ones do in less than 2 GiB of code. -/
theorem displacement_of_not_reaches {p : Patch} {target : Nat} (hreaches : ¬ p.Reaches target) :
    displacement p target = .error (.unreachableLabel (p.distance target) p.offset) := by
  obtain ⟨hshort, hrange⟩ := Classical.not_imp.mp hreaches
  obtain ⟨offset, width, label⟩ := p
  obtain rfl : width = .short := hshort
  exact if_neg hrange

/-- Filling in the field of one branch changes the bytes of that field and nothing else. -/
theorem resolve_field {s : CodeStream} {p : Patch} {target : Nat} (before after : List Byte)
    (hreaches : p.Reaches target) (hend : p.fieldEnd < 0x80000000) (htarget : target < 0x80000000)
    (hoffset : p.offset = before.length) (hdata : s.data.toList = before ++ p.field none ++ after) :
    ∃ t, resolve target s p = .ok t ∧
      t.data.toList = before ++ p.field (some target) ++ after ∧
      t.labels = s.labels ∧ t.patches = s.patches := by
  refine ⟨⟨overwrite s.data p.offset (p.field (some target)), s.labels, s.patches⟩, ?_, ?_, rfl,
    rfl⟩
  · rw [resolve, displacement_of_reaches hreaches hend htarget]
  · rw [hoffset]
    exact toList_overwrite hdata (by rw [p.length_field, p.length_field])

/-- Filling in the field of one command, if it is a branch to the label. The code behind it does not
matter. -/
theorem foldlM_resolve_command {s : CodeStream} {target? : Nat → Option Nat} {label here : Nat}
    (before after : List Byte) {c : Command} (hunbound : target? label = none)
    (hdata : s.data.toList = before ++ c.linked target? before.length ++ after)
    (hreaches : ∀ p ∈ c.patch? before.length, p.label = label → p.Reaches here)
    (hend : before.length + c.bytes.length < 0x80000000) (hhere : here < 0x80000000) :
    ∃ t, ((c.patch? before.length).toList.filter (·.label = label)).foldlM (resolve here) s =
        .ok t ∧
      t.data.toList = before ++
        c.linked (Function.update target? label (some here)) before.length ++ after ∧
      t.labels = s.labels ∧ t.patches = s.patches := by
  by_cases hc : ∀ p ∈ c.patch? before.length, p.label ≠ label
  · have hnone : (c.patch? before.length).toList.filter (·.label = label) = [] :=
      List.filter_eq_nil_iff.mpr fun p hp => by simpa using hc p (Option.mem_toList.mp hp)
    exact ⟨s, by rw [hnone]; rfl, by rw [hdata, Command.linked_update hc], rfl, rfl⟩
  · obtain ⟨p, hpatch, rfl⟩ : ∃ p, c.patch? before.length = some p ∧ p.label = label := by
      simpa using hc
    obtain ⟨opcode, hoffset, hbytes, hlinked⟩ := Command.linked_of_patch?_eq_some hpatch
    have hfieldEnd : p.fieldEnd = before.length + c.bytes.length := by
      rw [Patch.fieldEnd, hoffset, hbytes, List.length_append, p.length_field, Nat.add_assoc]
    obtain ⟨t, ht, htdata, htlabels, htpatches⟩ := resolve_field (s := s) (before ++ opcode) after
      (hreaches p hpatch rfl) (by rwa [hfieldEnd]) hhere (hoffset.trans List.length_append.symm)
      (by rw [hdata, hlinked, hunbound]; simp only [List.append_assoc])
    refine ⟨t, by simp [hpatch, ht], ?_, htlabels, htpatches⟩
    rw [htdata, hlinked, Function.update_self]
    simp only [List.append_assoc]

/-- Filling in the fields of **all** branches to a label. The branches among `cs` that lead
elsewhere are passed by, with their fields as they are. -/
theorem foldlM_resolve_branches {s : CodeStream} {target? : Nat → Option Nat} {label here : Nat}
    (before after : List Byte) {cs : List Command} (hunbound : target? label = none)
    (hdata : s.data.toList = before ++ linked target? before.length cs ++ after)
    (hreaches : ∀ p ∈ branches before.length cs, p.label = label → p.Reaches here)
    (hend : before.length + size cs < 0x80000000) (hhere : here < 0x80000000) :
    ∃ t, ((branches before.length cs).filter (·.label = label)).foldlM (resolve here) s = .ok t ∧
      t.data.toList = before ++
        linked (Function.update target? label (some here)) before.length cs ++ after ∧
      t.labels = s.labels ∧ t.patches = s.patches := by
  induction cs generalizing s before with
  | nil => exact ⟨s, rfl, hdata, rfl, rfl⟩
  | cons c cs ih =>
    rw [size_cons] at hend
    obtain ⟨t, ht, htdata, htlabels, htpatches⟩ := foldlM_resolve_command (s := s) (c := c)
      before (linked target? (before.length + c.bytes.length) cs ++ after) hunbound
      (by rw [hdata, linked]; simp only [List.append_assoc])
      (fun p hp => hreaches p (List.mem_append_left _ (Option.mem_toList.mpr hp))) (by omega) hhere
    have hlength : (before ++ c.linked (Function.update target? label (some here))
        before.length).length = before.length + c.bytes.length := by
      rw [List.length_append, c.length_linked]
    -- the commands after the first are behind its bytes, whose number has not changed
    obtain ⟨u, hu, hudata, hulabels, hupatches⟩ := ih (s := t)
      (before ++ c.linked (Function.update target? label (some here)) before.length)
      (by rw [htdata, hlength]; simp only [List.append_assoc])
      (fun p hp => hreaches p (by rw [hlength] at hp; exact List.mem_append_right _ hp))
      (by rw [hlength]; omega)
    rw [hlength] at hu hudata
    refine ⟨u, ?_, ?_, hulabels.trans htlabels, hupatches.trans htpatches⟩
    · rw [branches, List.filter_append, List.foldlM_append, ht]
      exact hu
    · rw [hudata, linked]
      simp only [List.append_assoc]

/-- Of several branches to a label that is bound, the first one that does not reach it is the fault.
Those before it have been filled in by then. -/
theorem foldlM_resolve_of_not_reaches {s : CodeStream} {here : Nat} {earlier later : List Patch}
    {p : Patch} (hearlier : ∀ q ∈ earlier, q.Reaches here)
    (hend : ∀ q ∈ earlier, q.fieldEnd < 0x80000000) (hhere : here < 0x80000000)
    (hp : ¬ p.Reaches here) :
    (earlier ++ p :: later).foldlM (resolve here) s =
      .error (.unreachableLabel (p.distance here) p.offset) := by
  induction earlier generalizing s with
  | nil =>
    rw [List.nil_append, List.foldlM_cons, resolve, displacement_of_not_reaches hp]
    rfl
  | cons q earlier ih =>
    have hfirst : resolve here s q = .ok { s with
        data := overwrite s.data q.offset (q.field (some here)) } := by
      rw [resolve, displacement_of_reaches (hearlier q List.mem_cons_self)
        (hend q List.mem_cons_self) hhere]
    rw [List.cons_append, List.foldlM_cons, hfirst]
    exact ih (fun r hr => hearlier r (List.mem_cons_of_mem _ hr))
      (fun r hr => hend r (List.mem_cons_of_mem _ hr))

/-! ### One command -/

/-- A stream that holds what commands from the empty stream on leave in it: their code, with every
field filled in whose label they bind, their labels, and their pending branches. All branches whose
label is bound reach it. -/
structure Reflects (commands : List Command) (s : CodeStream) : Prop where
  data : s.data.toList = linked (Commands.target? commands) 0 commands
  labels_size : s.labels.size = created commands
  target : ∀ label, s.target? label = Commands.target? commands label
  patches : s.patches = pending commands
  reaches : ∀ p ∈ branches 0 commands, ∀ target ∈ Commands.target? commands p.label,
    p.Reaches target

/-- When a command after others is **misuse** of its labels, and the fault that it is. -/
inductive Breaks (before : List Command) : Command → Fault → Prop
  /-- A label is bound a second time. -/
  | rebound {label : Nat} (hbound : (Commands.target? before label).isSome) :
    Breaks before (.bind label) (.labelRebound label)
  /-- A label is bound out of reach of a branch. Of several the first one is at fault. -/
  | forward {label : Nat} {earlier later : List Patch} {p : Patch}
    (hunbound : Commands.target? before label = none)
    (hbranches : (branches 0 before).filter (·.label = label) = earlier ++ p :: later)
    (hearlier : ∀ q ∈ earlier, q.Reaches (size before)) (hp : ¬ p.Reaches (size before)) :
    Breaks before (.bind label) (.unreachableLabel (p.distance (size before)) p.offset)
  /-- A branch is appended out of reach of its label. -/
  | backward {condition : Option Condition} {width : BranchWidth} {label target : Nat} {p : Patch}
    (hbound : Commands.target? before label = some target)
    (hbranch : (Command.branch condition width label).patch? (size before) = some p)
    (hp : ¬ p.Reaches target) :
    Breaks before (.branch condition width label) (.unreachableLabel (p.distance target) p.offset)

namespace Reflects

variable {before : List Command} {s : CodeStream}

/-- The empty stream reflects no commands at all. -/
theorem nil : Reflects [] empty := ⟨rfl, rfl, fun _ => rfl, rfl, fun _ hp => by cases hp⟩

/-- The next command is carried out behind all bytes of those before. -/
theorem position_eq (h : Reflects before s) : s.position = size before := by
  rw [position, ← Array.length_toList, h.data, length_linked]

/-- A command that neither binds a label nor branches leaves labels and patches alone, and appends
its bytes. -/
theorem snoc {t : CodeStream} {c : Command} (h : Reflects before s)
    (hbind : ∀ label, c ≠ .bind label) (hpatch : c.patch? (size before) = none)
    (hdata : t.data.toList = s.data.toList ++ c.bytes)
    (hsize : t.labels.size = created (before ++ [c])) (htarget : ∀ l, t.target? l = s.target? l)
    (hpatches : t.patches = s.patches) : Reflects (before ++ [c]) t where
  data := by
    rw [hdata, h.data, target?_snoc hbind, linked_snoc, Command.linked_of_patch?_eq_none hpatch]
  labels_size := hsize
  target label := by rw [htarget, h.target, target?_snoc hbind]
  patches := by rw [hpatches, h.patches, pending_snoc hbind, hpatch]; simp
  reaches p hp target ht := by
    rw [branches_snoc, hpatch] at hp
    rw [target?_snoc hbind] at ht
    exact h.reaches p (by simpa using hp) target ht

/-- A branch that reaches its label, or whose label is not bound, can be added to branches that
do. -/
theorem reaches_snoc (h : Reflects before s) {c : Command} {p : Patch}
    (hbind : ∀ label, c ≠ .bind label) (hpatch : c.patch? (size before) = some p)
    (hp : ∀ target ∈ Commands.target? before p.label, p.Reaches target) :
    ∀ q ∈ branches 0 (before ++ [c]), ∀ target ∈ Commands.target? (before ++ [c]) q.label,
      q.Reaches target := by
  rw [branches_snoc, hpatch, target?_snoc hbind]
  intro q hq
  rcases List.mem_append.mp hq with hold | hnew
  · exact h.reaches q hold
  · obtain rfl := List.mem_singleton.mp hnew
    exact hp

theorem created_snoc (h : Reflects before s) {c : Command} (hc : c ≠ .createLabel) :
    s.labels.size = created (before ++ [c]) := by
  rw [h.labels_size, created, created, List.count_append, List.count_singleton,
    if_neg (by simpa using hc), Nat.add_zero]

/-- **Creating a label** adds one that is not bound. -/
theorem step_createLabel (h : Reflects before s) :
    ∃ t, s.step .createLabel = .ok t ∧ Reflects (before ++ [.createLabel]) t := by
  refine ⟨s.createLabel.2, rfl, h.snoc (by simp) rfl (List.append_nil _).symm ?_ (fun l => ?_) rfl⟩
  · rw [created, List.count_append, ← created, ← h.labels_size]
    exact Array.size_push _
  · rw [target?, target?, createLabel, Array.getElem?_push]
    split
    · rename_i hlast
      rw [hlast, Array.getElem?_eq_none (Nat.le_refl _)]
      rfl
    · rfl

/-- **Emitting an instruction** that has an encoding appends its bytes. -/
theorem step_emit (h : Reflects before s) {i : Instruction} (hi : i.IsEncodable) :
    ∃ t, s.step (.emit i) = .ok t ∧ Reflects (before ++ [.emit i]) t := by
  refine ⟨s.append i.encode, ?_, h.snoc (by simp) rfl (data_toList_append _ _)
    (h.created_snoc (by simp)) (fun _ => rfl) rfl⟩
  rw [step, emit, Instruction.assemble, show i.fault? = none from hi]

/-- Binding a label that is not bound yet, said about the commands before: the branches to it are
filled in, in the order in which they were appended. -/
theorem step_bind_eq (h : Reflects before s) {label : Nat}
    (hunbound : Commands.target? before label = none) :
    s.step (.bind label) = ((branches 0 before).filter (·.label = label)).foldlM
      (resolve (size before)) ⟨s.data, s.labels.setIfInBounds label (some (size before)),
        pending (before ++ [.bind label])⟩ := by
  have hnot : ¬ (s.target? label).isSome := by
    rw [h.target, hunbound]
    exact Bool.false_ne_true
  rw [step, CodeStream.bind, if_neg hnot, h.position_eq, h.patches, filter_pending hunbound,
    pending_snoc_bind hunbound]

/-- **Binding a label** that is not bound yet, and that all branches to it reach, fills their fields
in. -/
theorem step_bind (h : Reflects before s) {label : Nat} (hlabel : label < created before)
    (hsize : size before < 0x80000000) (hok : ∀ fault, ¬ Breaks before (.bind label) fault) :
    ∃ t, s.step (.bind label) = .ok t ∧ Reflects (before ++ [.bind label]) t := by
  have hunbound : Commands.target? before label = none :=
    Option.not_isSome_iff_eq_none.mp fun hbound => hok _ (.rebound hbound)
  have hreaches : ∀ p ∈ branches 0 before, p.label = label → p.Reaches (size before) := by
    intro p hp hplabel
    by_contra hnot
    -- then there is a first branch that does not reach the label
    obtain ⟨first, hfirst⟩ : ∃ first, ((branches 0 before).filter (·.label = label)).find?
        (fun q => ¬ q.Reaches (size before)) = some first :=
      Option.isSome_iff_exists.mp (List.find?_isSome.mpr ⟨p, List.mem_filter.mpr
        ⟨hp, decide_eq_true hplabel⟩, decide_eq_true hnot⟩)
    obtain ⟨hbreaks, earlier, later, hsplit, hearlier⟩ := List.find?_eq_some_iff_append.mp hfirst
    exact hok _ (.forward hunbound hsplit (fun q hq => by simpa using hearlier q hq)
      (of_decide_eq_true hbreaks))
  have htarget := target?_snoc_bind hunbound
  obtain ⟨t, ht, htdata, htlabels, htpatches⟩ := foldlM_resolve_branches
    (s := ⟨s.data, s.labels.setIfInBounds label (some (size before)),
      pending (before ++ [.bind label])⟩)
    [] [] hunbound (h.data.trans (List.append_nil _).symm)
    hreaches (by simpa using hsize) hsize
  refine ⟨t, (h.step_bind_eq hunbound).trans ht, ?_, ?_, fun l => ?_, htpatches,
    fun p hp target htp => ?_⟩
  · rw [htdata, htarget, linked_snoc]
    rfl
  · rw [htlabels, Array.size_setIfInBounds, h.created_snoc (c := .bind label) (by simp)]
  · rw [htarget, CodeStream.target?, htlabels]
    rcases eq_or_ne l label with rfl | hne
    · rw [Function.update_self,
        Array.getElem?_setIfInBounds_self_of_lt (by rw [h.labels_size]; exact hlabel)]
      rfl
    · rw [Function.update_of_ne hne, Array.getElem?_setIfInBounds_ne hne.symm, ← h.target]
      rfl
  · replace hp : p ∈ branches 0 before := by
      rw [branches_snoc] at hp
      simpa [Command.patch?] using hp
    rw [htarget] at htp
    rcases eq_or_ne p.label label with heq | hne
    · rw [heq, Function.update_self] at htp
      cases htp
      exact hreaches p hp heq
    · rw [Function.update_of_ne hne] at htp
      exact h.reaches p hp target htp

/-- Appending a branch, said about the commands before: its field is filled in at once if its label
is bound, and left open otherwise. -/
theorem step_branch_eq (h : Reflects before s) {condition : Option Condition} {width : BranchWidth}
    {label : Nat} {p : Patch}
    (hpatch : (Command.branch condition width label).patch? (size before) = some p) :
    s.step (.branch condition width label) =
      match Commands.target? before label with
      | some target =>
        resolve target (s.append (Command.branch condition width label).bytes) p
      | none => .ok { s.append (Command.branch condition width label).bytes with
          patches := pending before ++ [p] } := by
  have hoffset : (s.append (Instruction.branch condition width 0).encode).position - width.bytes =
      size before + (Instruction.branchOpcode condition width).length := by
    rw [position, ← Array.length_toList, data_toList_append, List.length_append, Instruction.encode,
      Instruction.length_encodeBranch, Array.length_toList, ← position, h.position_eq]
    omega
  cases hpatch
  rw [step, branch, hoffset]
  rw [← h.target, ← h.patches]
  rfl

/-- **Appending a branch** that reaches its label, if that is bound, leaves a stream that reflects
it. -/
theorem step_branch (h : Reflects before s) {condition : Option Condition} {width : BranchWidth}
    {label : Nat} (hsize : size (before ++ [.branch condition width label]) < 0x80000000)
    (hok : ∀ fault, ¬ Breaks before (.branch condition width label) fault) :
    ∃ t, s.step (.branch condition width label) = .ok t ∧
      Reflects (before ++ [.branch condition width label]) t := by
  obtain ⟨p, hpatch⟩ :
      ∃ p, (Command.branch condition width label).patch? (size before) = some p := ⟨_, rfl⟩
  have hlabel : p.label = label := by cases hpatch; rfl
  have htarget := @target?_snoc before (.branch condition width label) (by simp)
  obtain ⟨opcode, hoffset, hbytes, hlinked⟩ := Command.linked_of_patch?_eq_some hpatch
  have hstep := h.step_branch_eq hpatch
  cases hbound : Commands.target? before label with
  | none =>
    -- the label is not bound yet: the displacement stays zero, and a patch is pending
    rw [hbound] at hstep
    refine ⟨_, hstep, ?_, h.created_snoc (by simp), fun l => ?_, ?_,
      h.reaches_snoc (by simp) hpatch (by simp [hlabel, hbound])⟩
    · rw [htarget, linked_snoc, hlinked, hlabel, hbound, ← hbytes, ← h.data]
      exact data_toList_append _ _
    · rw [htarget]
      exact h.target l
    · rw [pending_snoc (by simp), hpatch]
      simp [hlabel, hbound]
  | some target =>
    -- the label is bound: the displacement is filled in at once, and reaches
    have hreaches : p.Reaches target := by
      by_contra hnot
      exact hok _ (.backward hbound hpatch hnot)
    have hend : p.fieldEnd = size (before ++ [.branch condition width label]) := by
      rw [Patch.fieldEnd, hoffset, size_append, size_cons, hbytes, List.length_append,
        p.length_field, Nat.add_assoc]
      rfl
    have hle := target?_le hbound
    rw [hbound] at hstep
    obtain ⟨t, ht, htdata, htlabels, htpatches⟩ := resolve_field
      (s := s.append (Command.branch condition width label).bytes) (p := p)
      (s.data.toList ++ opcode) [] hreaches (by omega)
      (by rw [size_append] at hsize; omega)
      (by rw [hoffset, List.length_append, h.data, length_linked])
      (by rw [data_toList_append, hbytes]; simp only [List.append_assoc, List.append_nil])
    refine ⟨t, hstep.trans ht, ?_, ?_, fun l => ?_, ?_,
      h.reaches_snoc (by simp) hpatch (by simpa [hlabel, hbound] using hreaches)⟩
    · rw [htdata, htarget, linked_snoc, hlinked, hlabel, hbound, ← h.data]
      simp only [List.append_assoc, List.append_nil]
    · rw [htlabels]
      exact h.created_snoc (by simp)
    · rw [htarget, CodeStream.target?, htlabels]
      exact h.target l
    · rw [htpatches, pending_snoc (by simp), hpatch]
      simp [hlabel, hbound, append, h.patches]

/-- **A command that breaks** is the fault that it breaks with. -/
theorem step_eq_error (h : Reflects before s) {c : Command} {fault : Fault}
    (hsize : size before < 0x80000000) (hbreaks : Breaks before c fault) :
    s.step c = .error fault := by
  cases hbreaks with
  | rebound hbound => exact if_pos (by rw [h.target]; exact hbound)
  | @forward label earlier later p hunbound hbranches hearlier hp =>
    rw [h.step_bind_eq hunbound, hbranches]
    refine foldlM_resolve_of_not_reaches hearlier (fun q hq => ?_) hsize hp
    have hmem : q ∈ (branches 0 before).filter (·.label = label) := by
      rw [hbranches]
      exact List.mem_append_left _ hq
    have := fieldEnd_le_of_mem_branches (List.mem_filter.mp hmem).1
    omega
  | backward hbound hbranch hp =>
    rw [h.step_branch_eq hbranch, hbound]
    simp only [resolve, displacement_of_not_reaches hp]

/-- **A command that does not break** is carried out, and the stream reflects it afterwards. This is
the step of the induction over a run. -/
theorem step_eq_ok (h : Reflects before s) {c : Command} {after : List Command}
    (hown : OwnLabels (before ++ c :: after)) (hencodable : ∀ i, c = .emit i → i.IsEncodable)
    (hsize : size (before ++ [c]) < 0x80000000) (hok : ∀ fault, ¬ Breaks before c fault) :
    ∃ t, s.step c = .ok t ∧ Reflects (before ++ [c]) t := by
  cases c with
  | createLabel => exact h.step_createLabel
  | bind label =>
    exact h.step_bind (hown.of_split rfl) (by rw [size_append] at hsize; omega) hok
  | emit i => exact h.step_emit (hencodable i rfl)
  | branch condition width label => exact h.step_branch hsize hok

end Reflects

/-! ### Command sequences -/

/-- **A run of commands** either leaves a stream that reflects them or stops at the first command
that breaks. -/
theorem run_reflects {before : List Command} {s : CodeStream} (h : Reflects before s)
    (after : List Command) (hown : OwnLabels (before ++ after))
    (hencodable : ∀ i, .emit i ∈ after → i.IsEncodable)
    (hsize : size (before ++ after) < 0x80000000) :
    (∃ t, s.run after = .ok t ∧ Reflects (before ++ after) t) ∨
      ∃ fault done c rest t, s.run after = .error fault ∧ after = done ++ c :: rest ∧
        s.run done = .ok t ∧ Breaks (before ++ done) c fault := by
  induction after generalizing before s with
  | nil => exact .inl ⟨s, rfl, by rwa [List.append_nil]⟩
  | cons c cs ih =>
    have hhead : size (before ++ [c]) < 0x80000000 := by
      simp only [size_append, size_cons, size_nil] at hsize ⊢
      omega
    -- the first command breaks, or the others go on from what it leaves behind
    by_cases hbreaks : ∃ fault, Breaks before c fault
    · obtain ⟨fault, hfault⟩ := hbreaks
      refine .inr ⟨fault, [], c, cs, s, ?_, rfl, rfl, by rwa [List.append_nil]⟩
      rw [run, List.foldlM_cons, h.step_eq_error (by rw [size_append] at hhead; omega) hfault]
      rfl
    · obtain ⟨t, ht, hreflects⟩ := h.step_eq_ok hown
        (fun i hi => hencodable i (hi ▸ List.mem_cons_self)) hhead (not_exists.mp hbreaks)
      rw [run_cons_ok ht]
      have hassoc : before ++ [c] ++ cs = before ++ c :: cs := by simp
      rcases ih hreflects (by rwa [hassoc]) (fun i hi => hencodable i (List.mem_cons_of_mem _ hi))
          (by rwa [hassoc]) with
        ⟨u, hu, hureflects⟩ | ⟨fault, done, d, rest, u, hrun, rfl, hdone, hfault⟩
      · exact .inl ⟨u, hu, by rwa [hassoc] at hureflects⟩
      · exact .inr ⟨fault, c :: done, d, rest, u, hrun, rfl, by rw [run_cons_ok ht, hdone],
          by rwa [List.append_assoc] at hfault⟩

/-- The stream that a run leaves reflects the commands of the run. -/
theorem reflects_of_run {commands : List Command} {s : CodeStream} (hown : OwnLabels commands)
    (hencodable : ∀ i, .emit i ∈ commands → i.IsEncodable) (hsize : size commands < 0x80000000)
    (hrun : empty.run commands = .ok s) : Reflects commands s := by
  rcases run_reflects .nil commands hown hencodable hsize with
    ⟨t, ht, hreflects⟩ | ⟨fault, done, c, rest, t, herror, -⟩
  · obtain rfl : s = t := Except.ok.inj (hrun.symm.trans ht)
    exact hreflects
  · cases hrun.symm.trans herror

/-- The finished code of commands from the empty stream on. -/
def build (commands : List Command) : Except Fault (Array Byte) :=
  (empty.run commands).bind finish

/-- Building fails only if branches are left whose label is not bound, and names them in their
order. -/
theorem build_of_run {commands : List Command} {s : CodeStream} (h : Reflects commands s)
    (hrun : empty.run commands = .ok s) :
    build commands = if pending commands = [] then .ok s.data
      else .error (.unresolvedPatches (pending commands)) := by
  rw [build, hrun, ← h.patches]
  show s.finish = _
  simp only [finish, List.isEmpty_iff]

/-- If nothing is pending, all branches reach their labels. -/
theorem Reflects.reaches_of_pending_eq_nil {commands : List Command} {s : CodeStream}
    (h : Reflects commands s) (hsize : size commands < 0x80000000)
    (hpending : pending commands = []) :
    ∀ p ∈ branches 0 commands, ∃ target, Commands.target? commands p.label = some target ∧
      p.Reaches target ∧ target < 0x80000000 := by
  intro p hp
  have hbound := List.filter_eq_nil_iff.mp hpending p hp
  obtain ⟨target, htarget⟩ := Option.ne_none_iff_exists'.mp (by simpa using hbound)
  exact ⟨target, htarget, h.reaches p hp target htarget,
    Nat.lt_of_le_of_lt (target?_le htarget) hsize⟩

end CodeStream

/-! ### Finished code -/

/-- Whether `code` is what commands from an offset on append, each branch **leading to** the target
of its label: its displacement field, a signed number, counts from its end. -/
inductive Links (target? : Nat → Option Nat) : (offset : Nat) → List Command → List Byte → Prop
  | nil {offset : Nat} : Links target? offset [] []
  | plain {offset : Nat} {c : Command} {cs : List Command} {code : List Byte}
    (hc : ∀ condition width label, c ≠ .branch condition width label)
    (hrest : Links target? (offset + c.bytes.length) cs code) :
    Links target? offset (c :: cs) (c.bytes ++ code)
  | branch {offset label target : Nat} {condition : Option Condition} {width : BranchWidth}
    {cs : List Command} {field code : List Byte} (hlength : field.length = width.bytes)
    (htarget : target? label = some target)
    (hfield : (wordLE (8 * width.bytes) field).toInt = (target : Int) -
      ((offset + (Instruction.branchOpcode condition width).length + width.bytes : Nat) : Int))
    (hrest : Links target?
      (offset + (Instruction.branchOpcode condition width).length + width.bytes) cs code) :
    Links target? offset (.branch condition width label :: cs)
      (Instruction.branchOpcode condition width ++ field ++ code)

/-- Code whose fields are all filled in links every branch to its label. -/
theorem links_linked {target? : Nat → Option Nat} {offset : Nat} {cs : List Command}
    (hsize : offset + Commands.size cs < 0x80000000)
    (h : ∀ p ∈ Commands.branches offset cs, ∃ target, target? p.label = some target ∧
      p.Reaches target ∧ target < 0x80000000) :
    Links target? offset cs (Commands.linked target? offset cs) := by
  induction cs generalizing offset with
  | nil => exact .nil
  | cons c cs ih =>
    rw [Commands.size_cons] at hsize
    have hrest : Links target? (offset + c.bytes.length) cs
        (Commands.linked target? (offset + c.bytes.length) cs) :=
      ih (by omega) fun p hp => h p (List.mem_append_right _ hp)
    rw [Commands.linked]
    cases c with
    | branch condition width label =>
      obtain ⟨target, htarget, hreaches, hlt⟩ := h _ List.mem_cons_self
      have hlength : (Command.branch condition width label).bytes.length =
          (Instruction.branchOpcode condition width).length + width.bytes :=
        Instruction.length_encodeBranch _ _ _
      rw [hlength, ← Nat.add_assoc] at hrest
      rw [hlength] at hsize
      rw [hlength, ← Nat.add_assoc, Command.linked, htarget]
      refine .branch (Patch.length_field _ _) htarget ?_ hrest
      exact Patch.toInt_field hreaches (by simp only [Patch.fieldEnd]; omega) hlt
    | _ => exact .plain (by simp) hrest

open CodeStream in
/-- **Every branch reaches its label.** Whatever commands a stream is given (labels created, bound
and branched to in any order and any number, by branches of either width), building them fails
exactly when a command is misuse, or when a label that is branched to is never bound; the fault then
names those branches in their order. Code that is built is the bytes of the commands one after
another, where each displacement field leads from the end of its branch to where its label was
bound. -/
theorem branches_reach_labels {commands : List Command} (hown : Commands.OwnLabels commands)
    (hencodable : ∀ i, .emit i ∈ commands → i.IsEncodable)
    (hsize : Commands.size commands < 0x80000000) :
    (∀ code, build commands = .ok code →
      Links (Commands.target? commands) 0 commands code.toList) ∧
    ∀ fault, build commands = .error fault ↔
      (∃ before command after, commands = before ++ command :: after ∧
        (∃ s, empty.run before = .ok s) ∧ Breaks before command fault) ∨
      ((∃ s, empty.run commands = .ok s) ∧ Commands.pending commands ≠ [] ∧
        fault = .unresolvedPatches (Commands.pending commands)) := by
  have hreflects {s : CodeStream} (hrun : empty.run commands = .ok s) : Reflects commands s :=
    reflects_of_run hown hencodable hsize hrun
  refine ⟨fun code hcode => ?_, fun fault => ⟨fun hfault => ?_, ?_⟩⟩
  · -- code that was built has no patch left, so that every branch has its displacement
    cases hrun : empty.run commands with
    | error fault => simp [build, hrun, Except.bind] at hcode
    | ok s =>
      rw [build_of_run (hreflects hrun) hrun] at hcode
      split at hcode
      · rename_i hpending
        cases hcode
        rw [(hreflects hrun).data]
        exact links_linked (by omega) ((hreflects hrun).reaches_of_pending_eq_nil hsize hpending)
      · cases hcode
  · -- a fault: either the commands were carried out, with patches left, or one of them broke
    rcases run_reflects .nil commands hown hencodable hsize with
      ⟨s, hrun, -⟩ | ⟨fault', before, c, after, s, hrun, hsplit, hbefore, hbreaks⟩
    · rw [build_of_run (hreflects hrun) hrun] at hfault
      split at hfault
      · cases hfault
      · rename_i hpending
        cases hfault
        exact .inr ⟨⟨s, hrun⟩, hpending, rfl⟩
    · rw [build, hrun] at hfault
      cases hfault
      exact .inl ⟨before, c, after, hsplit, ⟨s, hbefore⟩, hbreaks⟩
  · -- and each of the two is a fault
    rintro (⟨before, c, after, rfl, ⟨s, hbefore⟩, hbreaks⟩ | ⟨⟨s, hrun⟩, hpending, rfl⟩)
    · have hlt : Commands.size before < 0x80000000 := by
        rw [Commands.size_append] at hsize
        omega
      have hreflects : Reflects before s := reflects_of_run hown.left
        (fun i hi => hencodable i (List.mem_append_left _ hi)) hlt hbefore
      rw [build, run_append_ok hbefore, run, List.foldlM_cons, hreflects.step_eq_error hlt hbreaks]
      rfl
    · rw [build_of_run (hreflects hrun) hrun, if_neg hpending]

/-- Two branches to each of two labels, forward over each other and backward. -/
def crossingBranches : List Command :=
  [.createLabel, .createLabel, .branch none .short 0, .branch (some .equal) .near 1, .emit .nop,
    .bind 0, .emit .nop, .branch none .near 0, .bind 1, .branch (some .below) .short 1]

open CodeStream in
theorem branches_reach_labels_crossing :
    Commands.OwnLabels crossingBranches ∧ (∀ i, .emit i ∈ crossingBranches → i.IsEncodable) ∧
      Commands.size crossingBranches < 0x80000000 ∧
      ∃ code, build crossingBranches = .ok code ∧
        code.toList = [0xEB, 7, 0x0F, 0x84, 7, 0, 0, 0, 0x90, 0x90, 0xE9, 0xFA, 0xFF, 0xFF, 0xFF,
          0x72, 0xFE] ∧
        Links (Commands.target? crossingBranches) 0 crossingBranches code.toList := by
  have hown : Commands.OwnLabels crossingBranches := by decide
  have hencodable : ∀ i, .emit i ∈ crossingBranches → i.IsEncodable := by
    simp only [crossingBranches, List.mem_cons]
    rintro i (h | h | h | h | h | h | h | h | h | h | h) <;> cases h <;> decide
  have hsize : Commands.size crossingBranches < 0x80000000 := by decide
  exact ⟨hown, hencodable, hsize, _, rfl, rfl,
    (branches_reach_labels hown hencodable hsize).1 _ rfl⟩

/-- Branches whose labels are never bound are named in their order. -/
example : CodeStream.build [.createLabel, .branch none .short 0, .createLabel, .branch none .near 1,
      .branch none .near 0, .bind 1] =
    .error (.unresolvedPatches [⟨1, .short, 0⟩, ⟨8, .near, 0⟩]) := rfl

end Assembly

end Dynarec
