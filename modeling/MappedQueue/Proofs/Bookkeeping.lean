import MappedQueue.Proofs.Creation
import MappedQueue.Proofs.Places
import MappedQueue.Proofs.Plans

/-!
# The bookkeeping of a process

An operation opens, makes or closes one file, or maps or unmaps one, or it leaves alone what
is open and mapped. Only the making of a file brings a file into play that could not be come
across before, and such a file has a number that was free. So a mapping in use that is found
by the number of an open file is a mapping of this file.
-/

namespace MappedQueue

namespace Host

variable {h h' : Host} {f g m : Nat}

def users (h : Host) (mapping : Nat) : Nat := (h.mappings[mapping]?.getD default).users

theorem inUse_iff : h.inUse m = true ↔ 0 < h.users m := decide_eq_true_iff

theorem lt_of_inUse (hin : h.inUse m = true) : m < h.mappings.size := by
  refine Nat.lt_of_not_le fun hle => ?_
  rw [inUse, Array.getElem?_eq_none hle] at hin
  cases hin

/-- A file that a process can still come across. -/
def Serves (h : Host) (file : Nat) : Prop :=
  file ∈ h.disk.named ∨ file ∈ h.opened ∨ ∃ mapping, h.inUse mapping = true ∧ h.fileOf mapping = file

theorem Serves.identity_mem_used (hserves : h.Serves f) : h.disk.identity f ∈ h.used := by
  rcases hserves with hnamed | hopened | ⟨mapping, hin, rfl⟩
  · exact List.mem_map_of_mem (List.mem_append_left _ (List.mem_append_left _ hnamed))
  · exact List.mem_map_of_mem (List.mem_append_left _ (List.mem_append_right _ hopened))
  · exact Host.identity_mem_used hin

/-- Nothing changes but what files and directories hold and which directories there are, and
perhaps a name is gone, or what is remembered of mappings that nobody uses. -/
structure Quiet (h h' : Host) : Prop where
  opened_eq : h'.opened = h.opened
  mappings_eq : h'.mappings = h.mappings
  lookup (identity mapping : Nat) (hin : h.inUse mapping = true)
    (hknown : h.known.lookup identity = some mapping) : h'.known.lookup identity = some mapping
  extends_ : Disk.Extends h.disk h'.disk
  formed : h'.disk.Formed
  named : ∀ file ∈ h'.disk.named, file ∈ h.disk.named

theorem Quiet.refl (hf : h.disk.Formed) : Quiet h h :=
  ⟨rfl, rfl, fun _ _ _ hknown => hknown, .of_files rfl, hf, fun _ hnamed => hnamed⟩

theorem Quiet.of_disk (hf : h.disk.Formed) {disk : Disk} (hnodes : disk.nodes = h.disk.nodes)
    (hextends : Disk.Extends h.disk disk) : Quiet h { h with disk } := by
  refine ⟨rfl, rfl, fun _ _ _ hknown => hknown, hextends, hf.of_nodes hnodes hextends.size_le, ?_⟩
  intro file hnamed
  change file ∈ disk.named at hnamed
  unfold Disk.named at hnamed
  rw [hnodes] at hnamed
  exact hnamed

theorem Quiet.access {α : Type} (hf : h.disk.Formed) (mapping : Nat) (change : Shared → α × Shared) :
    Quiet h (h.access mapping change).2 := by
  rw [access_eq]
  exact .of_disk hf rfl (Disk.extends_setShared ..)

/-- What an operation that is over has changed for the process that asked for it. -/
inductive Change (h : Host) : Deed → Host → Prop
  | quiet {deed : Deed} {h' : Host} (hidle : ∀ hands : Hands, hands.after deed = hands)
      (hquiet : Quiet h h') : Change h deed h'
  | create {path : String} {mode : Nat} {disk : Disk}
      (hfiles : disk.files = h.disk.files.push
        ⟨h.numbering.1 h.used, Disk.granted mode, { region := Region.zeros 0 }⟩)
      (hformed : disk.Formed)
      (hnamed : ∀ file ∈ disk.named, file ∈ h.disk.named ∨ file = h.disk.files.size) :
      Change h ⟨.createFile path mode, .ok h.disk.files.size⟩
        { h with disk, opened := h.disk.files.size :: h.opened }
  | open {path : String} {file : Nat} (hnamed : file ∈ h.disk.named) :
      Change h ⟨.openFile path, .ok file⟩ { h with opened := file :: h.opened }
  | close {file : Nat} : Change h ⟨.closeFile file, ()⟩ { h with opened := h.opened.erase file }
  | join {file length mapping : Nat}
      (hknown : h.known.lookup (h.disk.identity file) = some mapping)
      (hin : h.inUse mapping = true) :
      Change h ⟨.map file length, .ok mapping⟩
        { h with mappings := h.mappings.modify mapping fun m => { m with users := m.users + 1 } }
  | map {file length : Nat}
      (hunknown : ∀ mapping, h.known.lookup (h.disk.identity file) = some mapping →
        h.inUse mapping = false) :
      Change h ⟨.map file length, .ok h.mappings.size⟩
        { h with
          mappings := h.mappings.push ⟨file, length, 1⟩
          known := (h.disk.identity file, h.mappings.size) :: h.known.filter (h.inUse ·.2) }
  | unmap {mapping : Nat} : Change h ⟨.unmap mapping, ()⟩ (h.unmap mapping)

/-- A mapping in use is remembered when those out of use are forgotten. -/
theorem lookup_filter {known : List (Nat × Nat)} {keep : Nat → Bool} {identity mapping : Nat}
    (hknown : known.lookup identity = some mapping) (hkeep : keep mapping = true) :
    (known.filter (keep ·.2)).lookup identity = some mapping := by
  obtain ⟨before, after, rfl, hbefore⟩ := List.lookup_eq_some_iff.mp hknown
  rw [List.filter_append, List.filter_cons, if_pos hkeep]
  refine List.lookup_eq_some_iff.mpr ⟨_, _, rfl, fun entry hentry => ?_⟩
  exact hbefore entry (List.mem_filter.mp hentry).1

theorem carryOut_change (hf : h.disk.Formed) (operation : Operation) :
    Change h ⟨operation, (h.carryOut operation).1⟩ (h.carryOut operation).2 := by
  cases operation with
  | makeDirectories path =>
    refine .quiet (fun _ => rfl) ?_
    simp only [Host.carryOut]
    split
    · rename_i path _
      obtain ⟨hwidens, -⟩ := Disk.makeDirectories_widens hf path
      exact ⟨rfl, rfl, fun _ _ _ hknown => hknown, .of_files hwidens.files_eq, hwidens.formed,
        hwidens.named⟩
    · exact .refl hf
  | createFile path mode =>
    rcases h.carryOut_createFile_cases path mode with ⟨p, disk, -, hcreate, hdone⟩ | ⟨error, hdone⟩
    · obtain ⟨-, hfiles⟩ := Disk.createFile_ok hcreate
      obtain ⟨hformed, hnamed⟩ := Disk.createFile_formed hf hcreate
      rw [hdone]
      exact .create hfiles hformed hnamed
    · rw [hdone]
      exact .quiet (fun _ => rfl) (.refl hf)
  | openFile path =>
    rcases h.carryOut_openFile_cases path with ⟨p, file, -, hopen, hdone⟩ | ⟨error, hdone⟩
    · rw [hdone]
      exact .open (Disk.mem_named_of_find hf (Disk.openFile_ok hopen).1)
    · rw [hdone]
      exact .quiet (fun _ => rfl) (.refl hf)
  | closeFile file => exact .close
  | removeFile path =>
    refine .quiet (fun _ => rfl) ?_
    rcases h.carryOut_removeFile_cases path with ⟨p, disk, -, hunlink, hdone⟩ | ⟨error, hdone⟩
    · obtain ⟨hformed, hnamed⟩ := Disk.unlink_formed hf hunlink
      rw [hdone]
      exact ⟨rfl, rfl, fun _ _ _ hknown => hknown, .of_files (Disk.unlink_files hunlink), hformed,
        hnamed⟩
    · rw [hdone]
      exact .refl hf
  | fileLength file => exact .quiet (fun _ => rfl) (.refl hf)
  | setFileLength file length =>
    refine .quiet (fun _ => rfl) (.of_disk hf ?_ (Disk.extends_setLength ..))
    rw [Disk.setLength_eq]
    rfl
  | map file length =>
    simp only [Host.carryOut, Host.map]
    split
    · rename_i mapping hlookup
      obtain ⟨hknown, hin⟩ := Option.filter_eq_some_iff.mp hlookup
      exact .join hknown hin
    · rename_i hlookup
      split
      · refine .quiet (fun _ => rfl) ⟨rfl, rfl, fun _ _ hin hknown => ?_, .of_files rfl, hf, fun _ => id⟩
        exact lookup_filter hknown hin
      · refine .map fun mapping hknown => ?_
        rw [hknown, Option.filter_eq_none_iff] at hlookup
        simpa using hlookup
  | unmap mapping => exact .unmap
  | load mapping field => exact .quiet (fun _ => rfl) (.refl hf)
  | store mapping field value =>
    exact .quiet (fun _ => rfl)
      (.access hf mapping fun q => ((), { q with region := q.region.write field value }))
  | fetch mapping offset count => exact .quiet (fun _ => rfl) (.refl hf)
  | put mapping offset bytes =>
    exact .quiet (fun _ => rfl)
      (.access hf mapping fun q => ((), { q with region := q.region.setSlice offset bytes }))
  | prepareLock mapping =>
    rw [carryOut_prepareLock]
    dsimp only
    exact .quiet (fun _ => rfl) (.access hf ..)
  | pause => exact .quiet (fun _ => rfl) (.refl hf)

theorem perform_change (hf : h.disk.Formed) (operation : Operation) :
    Change h ⟨operation, (h.perform operation).1⟩ (h.perform operation).2 := by
  rcases h.perform_cases operation with ⟨error, outcome, hrefused, hp⟩ | hp
  · rw [hp]
    refine .quiet (fun hands => ?_) (.refl hf)
    cases operation <;> cases hrefused <;> rfl
  · rw [hp]
    exact carryOut_change hf operation

end Host

/-- What is in a thread's hands is what its process has for it. -/
structure Hands.Held (hands : Hands) (h : Host) : Prop where
  found_lt : ∀ file, hands.found = some file → file < h.disk.files.size
  file_eq : ∀ file, hands.file = some file → hands.found = some file
  mapping_lt : ∀ mapping, hands.mapping = some mapping → mapping < h.mappings.size
  mapping_eq : ∀ mapping, hands.mapping = some mapping → hands.found = some (h.fileOf mapping)

namespace Host

variable {h h' : Host} {f g m : Nat} {hands : Hands} {deed : Deed}

theorem Quiet.fileOf_eq (hq : Quiet h h') (m : Nat) : h'.fileOf m = h.fileOf m := by
  unfold fileOf
  rw [hq.mappings_eq]

theorem Quiet.users_eq (hq : Quiet h h') (m : Nat) : h'.users m = h.users m := by
  unfold users
  rw [hq.mappings_eq]

theorem Quiet.inUse_eq (hq : Quiet h h') (m : Nat) : h'.inUse m = h.inUse m := by
  unfold inUse
  rw [hq.mappings_eq]

theorem users_modify (h : Host) (mapping m : Nat) {change : Mapping → Mapping}
    (hlt : mapping < h.mappings.size) :
    users { h with mappings := h.mappings.modify mapping change } m =
      if m = mapping then (change h.mappings[mapping]).users else h.users m := by
  simp only [users, Array.getElem?_modify]
  by_cases hm : m = mapping
  · subst hm
    rw [if_pos rfl, if_pos rfl, Array.getElem?_eq_getElem hlt]
    rfl
  · rw [if_neg hm, if_neg (Ne.symm hm)]

theorem users_push (h : Host) (added : Mapping) (m : Nat) :
    users { h with mappings := h.mappings.push added } m =
      if m = h.mappings.size then added.users else h.users m := by
  simp only [users, Array.getElem?_push]
  split <;> rfl

theorem users_of_ge (hge : h.mappings.size ≤ m) : h.users m = 0 := by
  rw [users, Array.getElem?_eq_none hge]
  rfl

theorem Change.extends_ (hc : Change h deed h') (hf : h.disk.Formed) :
    Disk.Extends h.disk h'.disk ∧ h'.disk.Formed := by
  cases hc with
  | quiet _ hquiet => exact ⟨hquiet.extends_, hquiet.formed⟩
  | create hfiles hformed _ => exact ⟨.of_push hfiles, hformed⟩
  | _ => exact ⟨.of_files rfl, hf⟩

/-- A file has just been made, with a number that was free. -/
def Makes (h h' : Host) (deed : Deed) (f : Nat) : Prop :=
  (∃ path mode, deed.operation = .createFile path mode) ∧ f = h.disk.files.size ∧
    h'.disk.identity f = h.numbering.1 h.used

/-- The only new name there can be is that of a new file. -/
theorem Change.named (hc : Change h deed h') (hnamed : f ∈ h'.disk.named) :
    f ∈ h.disk.named ∨ Makes h h' deed f := by
  cases hc with
  | quiet _ hquiet => exact Or.inl (hquiet.named f hnamed)
  | @create path mode _ hfiles _ hold =>
    refine (hold f hnamed).imp_right fun heq => ⟨⟨path, mode, rfl⟩, heq, ?_⟩
    subst heq
    simp only [Disk.identity, hfiles, Array.getElem?_push_size]
  | _ => exact Or.inl hnamed

/-- Mappings keep their files. -/
theorem Change.fileOf_eq (hc : Change h deed h') (hlt : m < h.mappings.size) :
    h'.fileOf m = h.fileOf m ∧ m < h'.mappings.size := by
  cases hc with
  | quiet _ hquiet => exact ⟨hquiet.fileOf_eq m, by rw [hquiet.mappings_eq]; exact hlt⟩
  | join => exact ⟨fileOf_modify h _ (by intro _; rfl) m, by rw [Array.size_modify]; exact hlt⟩
  | unmap => exact ⟨fileOf_modify h _ (by intro _; rfl) m, by rw [Host.unmap, Array.size_modify]; exact hlt⟩
  | map =>
    refine ⟨?_, by rw [Array.size_push]; omega⟩
    exact (fileOf_push h _ m).trans (if_neg (Nat.ne_of_lt hlt))
  | _ => exact ⟨rfl, hlt⟩

/-- How often a file is open changes with what is in the thread's hands. -/
theorem Change.count_opened (hc : Change h deed h') (hallows : hands.Allows deed.operation)
    (hopened : hands.file = some f → 0 < h.opened.count f) :
    h'.opened.count f + (if hands.file = some f then 1 else 0) =
      h.opened.count f + if (hands.after deed).file = some f then 1 else 0 := by
  cases hc with
  | quiet hidle hquiet => rw [hidle, hquiet.opened_eq]
  | create =>
    obtain ⟨hfile, -⟩ := hallows
    simp only [Hands.after, hfile, List.count_cons, Option.some.injEq, beq_iff_eq]
    simp
  | @«open» path file =>
    obtain ⟨hfile, -⟩ := hallows
    simp only [Hands.after, hfile, List.count_cons, Option.some.injEq, beq_iff_eq]
    simp
  | @close file =>
    have hfile : hands.file = some file := hallows
    simp only [Hands.after, hfile, Option.some.injEq, reduceCtorEq, if_false]
    by_cases heq : file = f
    · subst heq
      have := hopened hfile
      rw [if_pos rfl, List.count_erase_self]
      omega
    · rw [if_neg heq, List.count_erase_of_ne (Ne.symm heq)]
  | _ => rfl

/-- How many use a mapping changes with what is in the thread's hands. -/
theorem Change.users_eq (hc : Change h deed h') (hallows : hands.Allows deed.operation)
    (hused : hands.mapping = some m → 0 < h.users m) :
    h'.users m + (if hands.mapping = some m then 1 else 0) =
      h.users m + if (hands.after deed).mapping = some m then 1 else 0 := by
  cases hc with
  | quiet hidle hquiet => rw [hidle, hquiet.users_eq]
  | @join file length mapping hknown hin =>
    obtain ⟨-, hmapping⟩ := hallows
    rw [users_modify h _ m (lt_of_inUse hin)]
    simp only [Hands.after, hmapping, Option.some.injEq, reduceCtorEq, if_false]
    by_cases heq : m = mapping
    · subst heq
      rw [if_pos rfl, if_pos rfl, users, Array.getElem?_eq_getElem (lt_of_inUse hin)]
      rfl
    · rw [if_neg heq, if_neg (Ne.symm heq)]
  | @map file length hunknown =>
    obtain ⟨-, hmapping⟩ := hallows
    change users { h with mappings := h.mappings.push ⟨file, length, 1⟩ } m + _ = _
    rw [users_push]
    simp only [Hands.after, hmapping, Option.some.injEq, reduceCtorEq, if_false]
    by_cases heq : m = h.mappings.size
    · subst heq
      rw [if_pos rfl, if_pos rfl, users_of_ge (Nat.le_refl _)]
    · rw [if_neg heq, if_neg (Ne.symm heq)]
  | @unmap mapping =>
    have hmapping : hands.mapping = some mapping := hallows
    simp only [Hands.after, hmapping, Option.some.injEq, reduceCtorEq, if_false]
    by_cases heq : m = mapping
    · subst heq
      have hpos := hused hmapping
      have hlt : m < h.mappings.size := lt_of_inUse (inUse_iff.mpr hpos)
      rw [Host.unmap, users_modify h _ m hlt, if_pos rfl, if_pos rfl]
      simp only [users, Array.getElem?_eq_getElem hlt, Option.getD_some] at hpos ⊢
      omega
    · rw [if_neg (Ne.symm heq)]
      simp only [Host.unmap, users, Array.getElem?_modify, if_neg (Ne.symm heq)]
  | _ => rfl

/-- A mapping in use was in use before, or it is a new one. -/
theorem Change.inUse (hc : Change h deed h') (hin : h'.inUse m = true) :
    (h.inUse m = true ∧ h'.fileOf m = h.fileOf m) ∨
      ∃ file length, deed = ⟨.map file length, .ok h.mappings.size⟩ ∧ m = h.mappings.size ∧
        h'.fileOf m = file := by
  cases hc with
  | quiet _ hquiet => exact Or.inl ⟨(hquiet.inUse_eq m).symm.trans hin, hquiet.fileOf_eq m⟩
  | @join file length mapping hknown hmapping =>
    refine Or.inl ⟨?_, fileOf_modify h _ (by intro _; rfl) m⟩
    by_cases heq : m = mapping
    · rw [heq]
      exact hmapping
    · rw [inUse_iff, users_modify h _ m (lt_of_inUse hmapping), if_neg heq] at hin
      exact inUse_iff.mpr hin
  | @map file length hunknown =>
    have hfile : fileOf { h with mappings := h.mappings.push ⟨file, length, 1⟩ } m =
        if m = h.mappings.size then file else h.fileOf m := fileOf_push h _ m
    by_cases heq : m = h.mappings.size
    · rw [if_pos heq] at hfile
      exact Or.inr ⟨file, length, rfl, heq, hfile⟩
    · rw [if_neg heq] at hfile
      refine Or.inl ⟨?_, hfile⟩
      have husers : users { h with mappings := h.mappings.push ⟨file, length, 1⟩ } m = h.users m :=
        (users_push h _ m).trans (if_neg heq)
      exact inUse_iff.mpr (husers ▸ inUse_iff.mp hin)
  | @unmap mapping =>
    refine Or.inl ⟨?_, fileOf_modify h _ (by intro _; rfl) m⟩
    have hlt := lt_of_inUse hin
    rw [Host.unmap, Array.size_modify] at hlt
    rw [inUse_iff] at hin ⊢
    simp only [Host.unmap, users, Array.getElem?_modify, Array.getElem?_eq_getElem hlt] at hin ⊢
    split at hin
    · simp only [Option.map_some, Option.getD_some] at hin ⊢
      omega
    · exact hin
  | _ => exact Or.inl ⟨hin, rfl⟩

/-- Nothing can be come across that could not before, but for a file that is made. -/
theorem Change.serves (hc : Change h deed h') (hp : h.Proper deed.operation) (hserves : h'.Serves f) :
    h.Serves f ∨ Makes h h' deed f := by
  rcases hserves with hnamed | hopened | ⟨mapping, hin, hfile⟩
  · exact (hc.named hnamed).imp_left Or.inl
  · cases hc with
    | quiet _ hquiet => exact Or.inl (Or.inr (Or.inl (by rw [← hquiet.opened_eq]; exact hopened)))
    | @create path mode _ hfiles =>
      rcases List.mem_cons.mp hopened with rfl | hopened
      · refine Or.inr ⟨⟨path, mode, rfl⟩, rfl, ?_⟩
        simp only [Disk.identity, hfiles, Array.getElem?_push_size]
      · exact Or.inl (Or.inr (Or.inl hopened))
    | «open» hnamed =>
      rcases List.mem_cons.mp hopened with rfl | hopened
      · exact Or.inl (Or.inl hnamed)
      · exact Or.inl (Or.inr (Or.inl hopened))
    | close => exact Or.inl (Or.inr (Or.inl (List.mem_of_mem_erase hopened)))
    | _ => exact Or.inl (Or.inr (Or.inl hopened))
  · rcases hc.inUse hin with ⟨hbefore, hsame⟩ | ⟨file, length, rfl, -, hnew⟩
    · exact Or.inl (Or.inr (Or.inr ⟨mapping, hbefore, hsame.symm.trans hfile⟩))
    · refine Or.inl (Or.inr (Or.inl ?_))
      rw [← hfile, hnew]
      exact hp

/-- No two files that a process can come across have one number. -/
def Distinct (h : Host) : Prop :=
  ∀ f g, h.Serves f → h.Serves g → h.disk.identity f = h.disk.identity g → f = g

/-- A mapping in use that is found by the number of a file is one of this file. -/
theorem Sound.fileOf_known (hs : h.Sound) (hd : h.Distinct) (hserves : h.Serves f)
    (hknown : h.known.lookup (h.disk.identity f) = some m) (hin : h.inUse m = true) :
    h.fileOf m = f := by
  obtain ⟨before, after, hsplit, -⟩ := List.lookup_eq_some_iff.mp hknown
  obtain ⟨-, hidentity⟩ := hs.known (h.disk.identity f, m)
    (by rw [hsplit]; exact List.mem_append_right _ List.mem_cons_self)
  exact hd _ _ (Or.inr (Or.inr ⟨m, hin, rfl⟩)) hserves hidentity

/-- Every mapping in use is found by the number of its file. -/
def Remembers (h : Host) : Prop :=
  ∀ mapping, h.inUse mapping = true →
    h.known.lookup (h.disk.identity (h.fileOf mapping)) = some mapping

theorem Change.remembers (hc : Change h deed h') (hs : h.Sound) (hf : h.disk.Formed)
    (hr : h.Remembers) : h'.Remembers := by
  intro mapping hin
  obtain ⟨hextends, -⟩ := hc.extends_ hf
  rcases hc.inUse hin with ⟨hbefore, hsame⟩ | ⟨file, length, rfl, rfl, hnew⟩
  · rw [hsame, hextends.identity_eq _ (hs.mapped_lt mapping (lt_of_inUse hbefore))]
    have hknown := hr mapping hbefore
    cases hc with
    | quiet _ hquiet => exact hquiet.lookup _ _ hbefore hknown
    | @map file length hunknown =>
      -- The new mapping is of another file, for this one has a mapping.
      have hne : h.disk.identity (h.fileOf mapping) ≠ h.disk.identity file := by
        intro heq
        rw [heq] at hknown
        rw [hunknown mapping hknown] at hbefore
        cases hbefore
      rw [List.lookup_cons, beq_false_of_ne hne]
      exact lookup_filter hknown hbefore
    | _ => exact hknown
  · rw [hnew]
    cases hc with
    | quiet hidle =>
      have := hidle { mapping := none }
      cases this
    | join hknown hmapping => exact absurd (lt_of_inUse hmapping) (Nat.lt_irrefl _)
    | map => exact List.lookup_cons_self

/-- What is in a thread's hands stays what its process has for it. -/
theorem Change.held (hc : Change h deed h') (hs : h.Sound) (hd : h.Distinct)
    (hp : h.Proper deed.operation) (hf : h.disk.Formed) (hallows : hands.Allows deed.operation)
    (hheld : hands.Held h) : (hands.after deed).Held h' := by
  obtain ⟨hextends, -⟩ := hc.extends_ hf
  have hfound : ∀ file, hands.found = some file → file < h'.disk.files.size := fun file hfile =>
    Nat.lt_of_lt_of_le (hheld.found_lt file hfile) hextends.size_le
  have hmapping : ∀ {m}, hands.mapping = some m →
      m < h'.mappings.size ∧ hands.found = some (h'.fileOf m) := fun hm => by
    obtain ⟨hsame, hlt⟩ := hc.fileOf_eq (hheld.mapping_lt _ hm)
    exact ⟨hlt, by rw [hsame]; exact hheld.mapping_eq _ hm⟩
  -- A thread that opens a file has no mapping, and one that maps a file has it open.
  cases hc with
  | quiet hidle hquiet =>
    rw [hidle]
    exact ⟨hfound, hheld.file_eq, fun m hm => (hmapping hm).1, fun m hm => (hmapping hm).2⟩
  | create hfiles =>
    obtain ⟨-, hnone⟩ := hallows
    refine ⟨fun file hfile => ?_, fun _ hfile => hfile, fun m hm => ?_, fun m hm => ?_⟩
    · cases hfile
      rw [hfiles, Array.size_push]
      exact Nat.lt_succ_self _
    · exact absurd (hnone.symm.trans hm) (by simp)
    · exact absurd (hnone.symm.trans hm) (by simp)
  | «open» hnamed =>
    obtain ⟨-, hnone⟩ := hallows
    refine ⟨fun file hfile => ?_, fun _ hfile => hfile, fun m hm => ?_, fun m hm => ?_⟩
    · cases hfile
      obtain ⟨_, _, _, _, node, -, -, hkind⟩ := Disk.mem_named.mp hnamed
      exact hf.file_lt hkind
    · exact absurd (hnone.symm.trans hm) (by simp)
    · exact absurd (hnone.symm.trans hm) (by simp)
  | close =>
    exact ⟨hfound, fun _ hfile => (nomatch hfile), fun m hm => (hmapping hm).1,
      fun m hm => (hmapping hm).2⟩
  | @join file length mapping hknown hin =>
    refine ⟨hfound, hheld.file_eq, fun m hm => ?_, fun m hm => ?_⟩
    · cases hm
      rw [Array.size_modify]
      exact lt_of_inUse hin
    · cases hm
      change hands.found = _
      rw [fileOf_modify h mapping (by intro _; rfl),
        hs.fileOf_known hd (Or.inr (Or.inl hp)) hknown hin]
      exact hheld.file_eq file hallows.1
  | @map file length hunknown =>
    refine ⟨hfound, hheld.file_eq, fun m hm => ?_, fun m hm => ?_⟩
    · cases hm
      rw [Array.size_push]
      exact Nat.lt_succ_self _
    · cases hm
      have hfile : fileOf { h with mappings := h.mappings.push ⟨file, length, 1⟩ } h.mappings.size =
          file := (fileOf_push h _ _).trans (if_pos rfl)
      exact (hheld.file_eq file hallows.1).trans (congrArg some hfile.symm)
  | unmap =>
    exact ⟨hfound, hheld.file_eq, fun _ hm => (nomatch hm), fun _ hm => (nomatch hm)⟩

end Host

end MappedQueue
