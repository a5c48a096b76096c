import MappedQueue.Proofs.Formatting
import MappedQueue.Proofs.Hosts
import MappedQueue.Store

/-!
# Creating queue files

A file that was created and initialised for a sizing holds a queue without messages. Its
lock is free, nobody sleeps on its conditions, no receiver is counted as waiting, and
nobody is registered.
-/

namespace MappedQueue

variable {s : Sizing} {h h' : Host} {store : Store}

namespace Sizing

theorem word?_of_lt {n : Nat} (h : n < 0x10000000000000000) : word? n = some n := if_pos h

/-- Within the limits no operation exceeds a machine word. -/
theorem measure_of_valid (hs : s.Valid) : s.measure = some (some s.fileSize) := by
  have hfit := fileSize_lt hs
  have hmessage : s.messageSize ≤ maxMessageSize := hs.2.2
  have hone : s.stride ≤ s.capacity * s.stride := Nat.le_mul_of_pos_left _ hs.1.1
  have hsize : s.capacity * s.stride + Layout.headerSize = s.fileSize := Nat.add_comm _ _
  have hstride : Layout.roundUp s.messageSize + Layout.slotHeaderSize = s.stride :=
    Nat.add_comm _ _
  have hraised : (s.messageSize + 8 - 1) / 8 * 8 = Layout.roundUp s.messageSize := rfl
  unfold maxMessageSize at hmessage
  simp only [measure, if_pos hs, Option.bind_eq_bind]
  rw [word?_of_lt (by omega), Option.bind_some, hraised, word?_of_lt (by omega),
    Option.bind_some, hstride, word?_of_lt (by omega), Option.bind_some,
    word?_of_lt (by omega), Option.bind_some, hsize, word?_of_lt hfit, Option.bind_some]
  rfl

/-- Outside the limits nothing is worked out. -/
theorem measure_of_not_valid (hs : ¬ s.Valid) : s.measure = some none := if_neg hs

theorem fileSize?_of_valid (hs : s.Valid) : s.fileSize? = some s.fileSize :=
  congrArg Option.join (measure_of_valid hs)

theorem fileSize?_of_not_valid (hs : ¬ s.Valid) : s.fileSize? = none :=
  congrArg Option.join (measure_of_not_valid hs)

theorem fileSize?_eq_some {length : Nat} :
    s.fileSize? = some length ↔ s.Valid ∧ length = s.fileSize := by
  by_cases hs : s.Valid
  · rw [fileSize?_of_valid hs, Option.some.injEq]
    exact ⟨fun h => ⟨hs, h.symm⟩, fun h => h.2.symm⟩
  · rw [fileSize?_of_not_valid hs]
    exact ⟨nofun, fun h => absurd h.1 hs⟩

end Sizing

/-- Preparing the lock frees it and changes the bytes of the lock objects only. -/
theorem Host.carryOut_prepareLock_eq (h : Host) (mapping : Nat) :
    h.carryOut (.prepareLock mapping) = (.ok (), h.withShared mapping
      { region := (h.shared mapping).region.setSlice Layout.lockOffset
          (Region.zeroBytes Layout.lockSize) }) := by
  rw [carryOut_prepareLock, access_eq]
  rfl

namespace Store

/-- Initialising a file of the right length makes it a queue without messages, unless the
system refuses to prepare the lock. -/
theorem run_initialise (hs : store.sizing.Valid)
    (hlt : h.fileOf store.mapping < h.disk.files.size)
    (hsize : (h.shared store.mapping).region.size = store.sizing.fileSize) :
    (∃ error h', store.initialise.run h = (.ok (.error error), h') ∧
      h.refused ≠ fun _ => none) ∨
    ∃ r, Vacant store.sizing r ∧ store.initialise.run h =
      (.ok (.ok ()), h.withShared store.mapping { region := r.write .tag Layout.validTag }) := by
  obtain ⟨r, hlayOut, hvacant⟩ := run_layOut hs hsize
  rw [initialise, Script.run_bind_of_ok (Script.run_through_of_ok hlt hlayOut),
    Script.run_call_bind]
  have hlt₁ := h.lt_withShared hlt { h.shared store.mapping with region := r }
  have hshared₁ := Host.shared_withShared hlt { h.shared store.mapping with region := r }
  have hback := h.withShared_withShared store.mapping { h.shared store.mapping with region := r }
  have hrefused₁ : (h.withShared store.mapping
      { h.shared store.mapping with region := r }).refused = h.refused := rfl
  generalize h.withShared store.mapping { h.shared store.mapping with region := r } = h₁ at *
  rcases h₁.perform_cases (.prepareLock store.mapping) with ⟨error, outcome, hrefused, hp⟩ | hp
  · cases hrefused
    refine Or.inl ⟨_, _, by rw [hp]; rfl, fun hwilling => ?_⟩
    rw [Host.perform_of_willing (hrefused₁.trans hwilling), Host.carryOut_prepareLock] at hp
    cases hp
  · refine Or.inr ⟨_, hvacant.prepared, ?_⟩
    rw [hp, Host.carryOut_prepareLock_eq, hshared₁, hback]
    have hlt₂ := h.lt_withShared hlt
      { region := r.setSlice Layout.lockOffset (Region.zeroBytes Layout.lockSize) }
    have hpublish : ∀ r : Region,
        Format.publish.run r = (.ok (), r.write .tag Layout.validTag) := fun _ => rfl
    dsimp only
    rw [Script.run_bind_of_ok (Script.run_through_of_ok hlt₂ (hpublish _)),
      Host.shared_withShared hlt, Host.withShared_withShared, Script.run_pure]

end Store

namespace Host

/-- A file that exists and that no mapping in use is known for. -/
structure Unmapped (h : Host) (file : Nat) : Prop where
  lt : file < h.disk.files.size
  unused : ∀ entry ∈ h.known, entry.1 = h.disk.identity file → h.inUse entry.2 = false

/-- The identities of the files that are mapped are in use. -/
theorem identity_mem_used {mapping : Nat} (hin : h.inUse mapping = true) :
    h.disk.identity (h.fileOf mapping) ∈ h.used := by
  refine List.mem_map_of_mem (List.mem_append_right _ ?_)
  unfold inUse at hin
  unfold fileOf
  cases hm : h.mappings[mapping]? with
  | none =>
    rw [hm] at hin
    cases hin
  | some m =>
    rw [hm] at hin
    refine List.mem_map_of_mem (List.mem_filter.mpr ⟨?_, hin⟩)
    rw [Array.mem_toList_iff]
    exact Array.mem_of_getElem? hm

/-- A new file is empty, free, and mapped by nobody. -/
theorem createFile_ok (hs : h.Sound) {path : String} {mode file : Nat}
    (hrun : h.perform (.createFile path mode) = (.ok file, h')) :
    h'.Unmapped file ∧ h'.disk.shared file = { region := Region.zeros 0 } := by
  have hdone := carryOut_of_perform hrun fun _ => nofun
  rcases h.carryOut_createFile_cases path mode with ⟨p, disk, -, hcreate, hmade⟩ | ⟨error, hmade⟩
  · cases hmade.symm.trans hdone
    obtain ⟨-, hfiles⟩ := Disk.createFile_ok hcreate
    have hnew : disk.files[h.disk.files.size]? =
        some ⟨h.numbering.1 h.used, Disk.granted mode, { region := Region.zeros 0 }⟩ := by
      rw [hfiles, Array.getElem?_push_size]
    refine ⟨⟨by rw [hfiles, Array.size_push]; exact Nat.lt_succ_self _, ?_⟩, ?_⟩
    · intro entry hentry hidentity
      cases hin : h.inUse entry.2 with
      | false => exact hin
      | true =>
        obtain ⟨-, hknown⟩ := hs.known entry hentry
        have hused := identity_mem_used hin
        simp only [Disk.identity, hnew] at hidentity
        rw [hknown, hidentity] at hused
        exact absurd hused (h.numbering.2 _)
    · simp only [Disk.shared, hnew]
  · cases hmade.symm.trans hdone

theorem setFileLength_ok {file length : Nat} (hu : h.Unmapped file)
    (hrun : h.perform (.setFileLength file length) = (.ok (), h')) :
    h'.Unmapped file ∧ h'.disk.shared file =
      { h.disk.shared file with region := (h.disk.shared file).region.resize length } := by
  cases carryOut_of_perform hrun fun _ => nofun
  have hextends := Disk.extends_setLength h.disk file length
  refine ⟨⟨Nat.lt_of_lt_of_le hu.lt hextends.size_le, ?_⟩, Disk.shared_setLength hu.lt⟩
  intro entry hentry hidentity
  exact hu.unused entry hentry (hidentity.trans (hextends.identity_eq file hu.lt))

theorem Unmapped.lookup_eq {file : Nat} (hu : h.Unmapped file) :
    (h.known.lookup (h.disk.identity file)).filter h.inUse = none := by
  cases hl : h.known.lookup (h.disk.identity file) with
  | none => rfl
  | some known =>
    obtain ⟨before, after, hmem, -⟩ := List.lookup_eq_some_iff.mp hl
    have hunused := hu.unused (h.disk.identity file, known) (by rw [hmem]; simp) rfl
    rw [Option.filter_some, hunused]
    rfl

/-- Mapping a file that nobody maps makes a mapping and forgets those out of use. -/
theorem Unmapped.map_eq {file length mapping : Nat} (hu : h.Unmapped file)
    (hrun : h.perform (.map file length) = (.ok mapping, h')) :
    mapping = h.mappings.size ∧ h' = { h with
      mappings := h.mappings.push ⟨file, length, 1⟩
      known := (h.disk.identity file, h.mappings.size) :: h.known.filter (h.inUse ·.2) } := by
  have hdone := carryOut_of_perform hrun fun _ => nofun
  simp only [carryOut, Host.map, hu.lookup_eq] at hdone
  split at hdone
  · cases hdone
  · cases hdone
    exact ⟨rfl, rfl⟩

/-- The new mapping is of the file. -/
theorem map_ok {file length mapping : Nat} (hu : h.Unmapped file)
    (hrun : h.perform (.map file length) = (.ok mapping, h')) :
    h'.fileOf mapping = file ∧ h'.disk = h.disk := by
  obtain ⟨rfl, rfl⟩ := hu.map_eq hrun
  refine ⟨?_, rfl⟩
  simp only [fileOf, Array.getElem?_push_size, Option.getD_some]

end Host

namespace Store

/-- Creating succeeds where the sizing is within the limits and the file can be made, given its
length and mapped. -/
theorem run_create_eq_ok {path : String} {mode : Nat} :
    (create path s mode).run h = (.ok (.ok store), h') ↔ s.Valid ∧ store.sizing = s ∧
      ∃ file h₁ h₂ h₃, h.perform (.createFile path mode) = (.ok file, h₁) ∧
        h₁.perform (.setFileLength file s.fileSize) = (.ok (), h₂) ∧
        h₂.perform (.map file s.fileSize) = (.ok store.mapping, h₃) ∧
        h' = { h₃ with opened := h₃.opened.erase file } := by
  constructor
  · intro hrun
    rw [create] at hrun
    cases hsize : s.fileSize? with
    | none =>
      rw [hsize] at hrun
      cases hrun
    | some length =>
      obtain ⟨hvalid, rfl⟩ := Sizing.fileSize?_eq_some.mp hsize
      simp only [hsize] at hrun
      rw [Script.run_call_bind] at hrun
      rcases hcreate : h.perform (.createFile path mode) with ⟨error | file, h₁⟩
      · rw [hcreate] at hrun
        cases hrun
      rw [hcreate] at hrun
      dsimp only at hrun
      rw [Script.run_bind, extend, Script.run_call_bind] at hrun
      rcases hlength : h₁.perform (.setFileLength file s.fileSize) with ⟨error | u, h₂⟩
      · rw [hlength] at hrun
        cases hrun
      rw [hlength] at hrun
      dsimp only at hrun
      rw [Script.run_call] at hrun
      rcases hmap : h₂.perform (.map file s.fileSize) with ⟨error | mapping, h₃⟩
      · rw [hmap] at hrun
        cases hrun
      rw [hmap] at hrun
      dsimp only at hrun
      rw [Script.run_call_bind, Host.perform_closeFile] at hrun
      cases hrun
      exact ⟨hvalid, rfl, file, h₁, h₂, h₃, rfl, hlength, hmap, rfl⟩
  · rintro ⟨hvalid, rfl, file, h₁, h₂, h₃, hcreate, hlength, hmap, rfl⟩
    have hextend : (extend file store.sizing.fileSize).run h₁ = (.ok (.ok store.mapping), h₃) := by
      rw [extend, Script.run_call_bind, hlength]
      dsimp only
      rw [Script.run_call, hmap]
    rw [create, Sizing.fileSize?_of_valid hvalid]
    dsimp only
    rw [Script.run_call_bind, hcreate]
    dsimp only
    rw [Script.run_bind_of_ok hextend]
    dsimp only
    rw [Script.run_call_bind, Host.perform_closeFile]
    rfl

/-- Creating that succeeds maps a new file of the length that belongs to the sizing, all zero. -/
theorem create_ok {path : String} {mode : Nat} (hs : h.Sound)
    (hrun : (create path s mode).run h = (.ok (.ok store), h')) :
    s.Valid ∧ store.sizing = s ∧ h'.fileOf store.mapping < h'.disk.files.size ∧
      h'.shared store.mapping = { region := (Region.zeros 0).resize s.fileSize } := by
  obtain ⟨hvalid, hsizing, file, h₁, h₂, h₃, hcreate, hlength, hmap, rfl⟩ := run_create_eq_ok.mp hrun
  obtain ⟨hu₁, hshared₁⟩ := Host.createFile_ok hs hcreate
  obtain ⟨hu₂, hshared₂⟩ := Host.setFileLength_ok hu₁ hlength
  obtain ⟨hfile, hdisk⟩ := Host.map_ok hu₂ hmap
  refine ⟨hvalid, hsizing, ?_, ?_⟩
  · change h₃.fileOf store.mapping < h₃.disk.files.size
    rw [hfile, hdisk]
    exact hu₂.lt
  · change h₃.disk.shared (h₃.fileOf store.mapping) = _
    rw [hfile, hdisk, hshared₂, hshared₁]

/-- A system that refuses nothing creates in every sizing within the limits, if the file can be
made. -/
theorem create_of_willing {path : String} {mode file : Nat} {h₁ : Host} (hs : h.Sound)
    (hvalid : s.Valid) (hw : h.refused = fun _ => none)
    (hcreate : h.perform (.createFile path mode) = (.ok file, h₁)) :
    ∃ store created, (create path s mode).run h = (.ok (.ok store), created) ∧
      created.refused = fun _ => none := by
  have hpositive : s.fileSize ≠ 0 := by
    unfold Sizing.fileSize Layout.headerSize Layout.stateOffset Layout.lockOffset
    omega
  have hw₁ : h₁.refused = fun _ => none := by
    have hp := h.perform_of_willing hw (.createFile path mode)
    rw [hcreate] at hp
    simp only [Host.carryOut] at hp
    split at hp
    · cases hp
      exact hw
    · cases hp
  obtain ⟨h₂, hlength, hw₂⟩ : ∃ h₂, h₁.perform (.setFileLength file s.fileSize) = (.ok (), h₂) ∧
      h₂.refused = fun _ => none := by
    rw [Host.perform_of_willing hw₁]
    exact ⟨_, rfl, hw₁⟩
  obtain ⟨hu₂, -⟩ := Host.setFileLength_ok (Host.createFile_ok hs hcreate).1 hlength
  obtain ⟨mapping, h₃, hmap, hw₃⟩ : ∃ mapping h₃, h₂.perform (.map file s.fileSize) =
      (.ok mapping, h₃) ∧ h₃.refused = fun _ => none := by
    rw [Host.perform_of_willing hw₂]
    simp only [Host.carryOut, Host.map, hu₂.lookup_eq, if_neg hpositive]
    exact ⟨_, _, rfl, hw₂⟩
  exact ⟨⟨mapping, s⟩, { h₃ with opened := h₃.opened.erase file },
    run_create_eq_ok.mpr ⟨hvalid, rfl, file, h₁, h₂, h₃, hcreate, hlength, hmap, rfl⟩, hw₃⟩

/-- Initialising a created file makes it a queue without messages, unless the system refuses to
prepare the lock. -/
theorem run_initialise_created {path : String} {mode : Nat} {created : Host} (hs : h.Sound)
    (hrun : (create path s mode).run h = (.ok (.ok store), created)) :
    (∃ error h', store.initialise.run created = (.ok (.error error), h') ∧
      created.refused ≠ fun _ => none) ∨
    ∃ r, Vacant s r ∧ store.initialise.run created = (.ok (.ok ()),
      created.withShared store.mapping { region := r.write .tag Layout.validTag }) := by
  obtain ⟨hvalid, rfl, hlt, hshared⟩ := create_ok hs hrun
  refine run_initialise hvalid hlt ?_
  rw [hshared]
  exact Region.size_slice ..

/-- A system that refuses nothing initialises what it has created. -/
theorem made_of_willing {path : String} {mode file : Nat} {h₁ : Host} (hs : h.Sound)
    (hvalid : s.Valid) (hw : h.refused = fun _ => none)
    (hfile : h.perform (.createFile path mode) = (.ok file, h₁)) :
    ∃ store created ready, (create path s mode).run h = (.ok (.ok store), created) ∧
      store.initialise.run created = (.ok (.ok ()), ready) := by
  obtain ⟨store, created, hcreate, hw'⟩ := create_of_willing hs hvalid hw hfile
  rcases run_initialise_created hs hcreate with ⟨error, h', -, hrefuses⟩ | ⟨r, -, hinitialise⟩
  · exact absurd hw' hrefuses
  · exact ⟨store, created, _, hcreate, hinitialise⟩

end Store

/-- What the users share of a queue file that was created and initialised. -/
def Made (s : Sizing) (q : Shared) : Prop :=
  ∃ (path : String) (mode : Nat) (start created finished : Host) (store : Store),
    start.Sound ∧ (Store.create path s mode).run start = (.ok (.ok store), created) ∧
      store.initialise.run created = (.ok (.ok ()), finished) ∧ q = finished.shared store.mapping

/-- What the users share of a queue without messages that nobody uses. -/
structure Fresh (s : Sizing) (q : Shared) : Prop where
  represents : Represents s q.region []
  waiting_eq : q.region.read .waiting = 0
  owner_eq : q.region.read .owner = 0
  holder_eq : q.holder = none
  orphaned_eq : q.orphaned = false
  sleepers_eq : q.sleepers = []

theorem Vacant.fresh {r : Region} (h : Vacant s r) :
    Fresh s { region := r.write .tag Layout.validTag } := by
  obtain ⟨hrepresents, hwaiting, howner⟩ := h.published
  generalize r.write .tag Layout.validTag = r' at *
  exact ⟨hrepresents, hwaiting, howner, rfl, rfl, rfl⟩

/-- A created and initialised file is a queue without messages that nobody uses. -/
theorem Made.fresh {q : Shared} (hm : Made s q) : s.Valid ∧ Fresh s q := by
  obtain ⟨path, mode, start, created, finished, store, hsound, hcreate, hinitialise, rfl⟩ := hm
  obtain ⟨hvalid, -, hlt, -⟩ := Store.create_ok hsound hcreate
  rcases Store.run_initialise_created hsound hcreate with ⟨error, h', hrun, -⟩ | ⟨r, hvacant, hrun⟩
  · rw [hrun] at hinitialise
    cases hinitialise
  · rw [hrun] at hinitialise
    cases hinitialise
    rw [Host.shared_withShared hlt]
    exact ⟨hvalid, hvacant.fresh⟩

/-- Queues can be made in every valid sizing. -/
theorem exists_made (hs : s.Valid) : ∃ q, Made s q := by
  obtain ⟨h₁, hfile⟩ : ∃ h₁, ({} : Host).perform (.createFile "/q" 0o600) = (.ok 0, h₁) :=
    ⟨_, Prod.ext rfl rfl⟩
  obtain ⟨store, created, ready, hcreate, hinitialise⟩ :=
    Store.made_of_willing Host.sound_default hs rfl hfile
  exact ⟨_, "/q", 0o600, {}, created, ready, store, Host.sound_default, hcreate, hinitialise, rfl⟩

end MappedQueue
