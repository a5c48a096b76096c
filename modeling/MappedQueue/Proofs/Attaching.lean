import MappedQueue.Proofs.Creation
import MappedQueue.Proofs.Plans
import MappedQueue.Proofs.QueuePlaces

/-!
# Which files are queue files

Whoever attaches reads a file that anybody may have written. It tells a queue file by the tag, by
a sizing within the limits and by the length that belongs to this sizing, and it changes no file.
The files that are created and initialised are told to be queue files, with the sizing that was
asked for, and before they are initialised they are told not to be ready.
-/

namespace MappedQueue

variable {α : Type} {s : Sizing} {r : Region} {d : Disk} {h h' : Host} {store : Store}
  {path : String} {mode file : Nat}

namespace Region

/-- The sizing that a file states. -/
def sizing (r : Region) : Sizing := ⟨r.read .capacity, r.read .messageSize⟩

/-- The file is too short for a header, or its tag has not been written yet. -/
def Unready (r : Region) : Prop := r.size < Layout.headerSize ∨ r.read .tag = 0

/-- The file has the tag, states a sizing within the limits, and is as long as belongs to it. -/
def IsQueue (r : Region) : Prop :=
  r.read .tag = Layout.validTag ∧ r.sizing.Valid ∧ r.size = r.sizing.fileSize

instance (r : Region) : Decidable r.Unready := inferInstanceAs (Decidable (_ ∨ _))

instance (r : Region) : Decidable r.IsQueue := inferInstanceAs (Decidable (_ ∧ _))

/-- What is to be told of a file. -/
def verdict (r : Region) : Except Error Sizing :=
  if r.Unready then .error .notReady else if r.IsQueue then .ok r.sizing else .error .badHandle

theorem verdict_of_unready (hr : r.Unready) : r.verdict = .error .notReady := if_pos hr

theorem verdict_of_isQueue (hr : r.IsQueue) : r.verdict = .ok r.sizing := by
  obtain ⟨htag, hvalid, hsize⟩ := hr
  have hready : ¬ r.Unready := by
    rintro (hshort | hzero)
    · rw [hsize] at hshort
      exact absurd (Nat.le_add_right _ _) (Nat.not_le_of_lt hshort)
    · rw [htag] at hzero
      exact absurd hzero (by decide)
  rw [verdict, if_neg hready, if_pos ⟨htag, hvalid, hsize⟩]

end Region

/-- Reading what tells a queue file, in a file with a header, comes to what is to be told. -/
theorem Store.run_preamble (hr : Layout.headerSize ≤ r.size) :
    (preamble r.size).run r = (.ok r.verdict, r) := by
  rw [preamble, Access.run_get_bind, Region.verdict]
  by_cases hzero : r.read .tag = 0
  · have hunready : r.Unready := Or.inr hzero
    rw [if_pos hzero, if_pos hunready, Access.run_pure]
  have hready : ¬ r.Unready := not_or.mpr ⟨Nat.not_lt_of_le hr, hzero⟩
  rw [if_neg hzero, if_neg hready]
  by_cases htag : r.read .tag = Layout.validTag
  · rw [if_neg (not_not.mpr htag), Access.run_get_bind, Access.run_get_bind]
    change (if r.sizing.fileSize? = some r.size then _ else _ : Access _).run r = _
    by_cases hsize : r.sizing.fileSize? = some r.size
    · have hqueue : r.IsQueue := ⟨htag, Sizing.fileSize?_eq_some.mp hsize⟩
      rw [if_pos hsize, if_pos hqueue]
      rfl
    · have hforeign : ¬ r.IsQueue := fun hr => hsize (Sizing.fileSize?_eq_some.mpr hr.2)
      rw [if_neg hsize, if_neg hforeign]
      rfl
  · have hforeign : ¬ r.IsQueue := fun hr => htag hr.1
    rw [if_pos htag, if_neg hforeign, Access.run_pure]

/-- A file that has its right length and no tag is not ready. -/
theorem Region.verdict_resize (n : Nat) : ((zeros 0).resize n).verdict = .error .notReady :=
  verdict_of_unready (Or.inr (read_tag_resize n))

/-- A file without messages is told to be a queue file of its sizing. -/
theorem Fresh.verdict_eq {q : Shared} (hf : Fresh s q) (hs : s.Valid) :
    q.region.verdict = .ok s := by
  obtain ⟨used, free, harranged, -⟩ := hf.represents
  have hsizing : q.region.sizing = s := by
    rw [Region.sizing, harranged.capacity_eq, harranged.messageSize_eq]
  rw [Region.verdict_of_isQueue ⟨harranged.tag_eq, ?_, ?_⟩, hsizing]
  · rw [hsizing]
    exact hs
  · rw [hsizing]
    exact harranged.size_eq

/-- An operation that looks at the disk, or at nothing. -/
def Operation.Looks : Operation → Prop
  | .openFile _ | .closeFile _ | .fileLength _ | .map _ _ | .unmap _ | .load _ _ | .fetch _ _ _
  | .pause => True
  | .makeDirectories _ | .createFile _ _ | .removeFile _ | .setFileLength _ _ | .store _ _ _
  | .put _ _ _ | .prepareLock _ => False

theorem Host.disk_perform {operation : Operation} (ho : operation.Looks) (h : Host) :
    (h.perform operation).2.disk = h.disk := by
  rcases h.perform_cases operation with ⟨error, outcome, -, hp⟩ | hp
  · rw [hp]
  · rw [hp]
    cases operation with
    | openFile path =>
      simp only [carryOut]
      split <;> rfl
    | map file length =>
      simp only [carryOut, Host.map]
      split
      · rfl
      · split <;> rfl
    | closeFile | fileLength | unmap | load | fetch | pause => rfl
    | makeDirectories | createFile | removeFile | setFileLength | store | put | prepareLock =>
      exact ho.elim

/-- The rules for a script that only looks. -/
def lookingRules : Rules Unit where
  after _ _ := ()
  Allows _ := Operation.Looks
  Faults := True

namespace Script

theorem Obeys.disk_eq {p : Script α} {fits : Unit → α → Prop} (hp : p.Obeys lookingRules fits ()) :
    ∀ h : Host, (p.run h).2.disk = h.disk := by
  induction p with
  | done a => exact fun _ => rfl
  | fault f => exact fun _ => rfl
  | perform operation next ih =>
    exact fun h => (ih _ (hp.2 _ trivial) _).trans (Host.disk_perform hp.1 h)

section Looks

variable {σ : Type} {rules : Rules σ}

theorem looks_through {mapping : Nat}
    (hlooks : ∀ state operation, Operation.Looks operation → rules.Allows state operation)
    (hfaults : rules.Faults) (p : Access α) (hp : Reads p) :
    ∀ state, (through mapping p).Obeys rules (fun _ _ => True) state := by
  induction p with
  | done a => exact fun _ => trivial
  | fault f => exact fun _ => hfaults
  | load field next ih =>
    exact fun state => ⟨hlooks state _ trivial, fun value _ => ih value (hp value) _⟩
  | fetch offset count next ih =>
    exact fun state => ⟨hlooks state _ trivial, fun bytes _ => ih bytes (hp bytes) _⟩
  | store field value next ih => exact hp.elim
  | put offset bytes next ih => exact hp.elim

/-- Attaching is within any rules that allow to look. -/
theorem looks_attach
    (hlooks : ∀ state operation, Operation.Looks operation → rules.Allows state operation)
    (hfaults : rules.Faults) (path : String) (state : σ) :
    (Store.attach path).Obeys rules (fun _ _ => True) state := by
  refine .call (hlooks _ _ trivial) fun outcome _ => ?_
  cases outcome with
  | error error => exact trivial
  | ok file =>
    refine .call (hlooks _ _ trivial) fun (length : Nat) _ => ?_
    split
    · exact .call (hlooks _ _ trivial) fun _ _ => trivial
    · refine .call (hlooks _ _ trivial) fun mapped _ => .call (hlooks _ _ trivial) fun _ _ => ?_
      cases mapped with
      | error error => exact trivial
      | ok mapping =>
        refine (looks_through hlooks hfaults _ (Store.reads_preamble length) _).bind ?_
        rintro - result -
        cases result with
        | ok sizing => exact trivial
        | error error => exact .call (hlooks _ _ trivial) fun _ _ => trivial

end Looks

end Script

namespace Store

theorem looking_attach (path : String) :
    (attach path).Obeys lookingRules (fun _ _ => True) () :=
  Script.looks_attach (fun _ _ hlooks => hlooks) trivial path ()

/-- Attaching changes no file, whatever comes of it. -/
theorem disk_attach (path : String) (h : Host) : ((attach path).run h).2.disk = h.disk :=
  (looking_attach path).disk_eq h

end Store

/-- The path leads to the file, and its owner may open it. -/
def Disk.Opens (d : Disk) (path : String) (file : Nat) : Prop :=
  ∃ p, Path.ofString path = .ok p ∧ d.openFile p = .ok file

/-- The process takes no mapping of another file for one of this file, as it would if the files
had had the same identity one after the other. -/
def Host.Recognises (h : Host) (file : Nat) : Prop :=
  ∀ entry ∈ h.known, entry.1 = h.disk.identity file → h.inUse entry.2 = true →
    h.fileOf entry.2 = file

/-- Nothing keeps the process from opening the path and mapping the file. -/
structure Host.Lets (h : Host) (path : String) (file : Nat) : Prop where
  opens : h.refused (.openFile path) = none
  maps : ∀ length, h.refused (.map file length) = none
  recognises : h.Recognises file

/-- Whichever process attaches to the file by the path learns the verdict. -/
def Disk.Tells (d : Disk) (path : String) (file : Nat) (verdict : Except Error Sizing) : Prop :=
  ∀ h : Host, h.disk = d → h.Lets path file →
    ∃ answer h', (Store.attach path).run h = (.ok answer, h') ∧
      answer.map (·.sizing) = verdict ∧
      ∀ store, answer = .ok store → h'.fileOf store.mapping = file

namespace Host

theorem perform_openFile (hd : h.disk.Opens path file) (hl : h.Lets path file) :
    h.perform (.openFile path) = (.ok file, { h with opened := file :: h.opened }) := by
  obtain ⟨p, hp, hopen⟩ := hd
  rw [perform_of_not_refused hl.opens]
  simp only [carryOut, hp, bind, Except.bind, hopen]

/-- The mapping that the process gets is of the file. -/
theorem exists_map {length : Nat} (hl : h.Lets path file) (hlength : length ≠ 0) :
    ∃ mapping h', h.perform (.map file length) = (.ok mapping, h') ∧ h'.fileOf mapping = file ∧
      h'.disk = h.disk := by
  rw [perform_of_not_refused (hl.maps length)]
  simp only [carryOut, Host.map]
  split
  · rename_i mapping hknown
    obtain ⟨hlookup, hinUse⟩ := Option.filter_eq_some_iff.mp hknown
    obtain ⟨before, after, hmem, -⟩ := List.lookup_eq_some_iff.mp hlookup
    have hfile := hl.recognises (h.disk.identity file, mapping) (by rw [hmem]; simp) rfl hinUse
    exact ⟨mapping, _, rfl, (h.fileOf_modify mapping (by intro _; rfl) mapping).trans hfile, rfl⟩
  · rw [if_neg hlength]
    refine ⟨h.mappings.size, _, rfl, ?_, rfl⟩
    exact (h.fileOf_push ⟨file, length, 1⟩ h.mappings.size).trans (if_pos rfl)

end Host

namespace Store

/-- Reading through a mapping what tells a queue file changes nothing. -/
theorem run_through_preamble {mapping : Nat} (hlt : h.fileOf mapping < h.disk.files.size)
    (hr : Layout.headerSize ≤ (h.shared mapping).region.size) :
    (Script.through mapping (preamble (h.shared mapping).region.size)).run h =
      (.ok (h.shared mapping).region.verdict, h) := by
  rw [Script.run_through_of_ok hlt (run_preamble hr), Host.withShared_shared]

end Store

/-- Whoever attaches to a file learns what is to be told of it. -/
theorem Disk.tells_verdict (ho : d.Opens path file) :
    d.Tells path file (d.shared file).region.verdict := by
  rintro h rfl hl
  have hlt : file < h.disk.files.size := by
    obtain ⟨p, -, hopen⟩ := ho
    exact Disk.openFile_lt hopen
  rw [Store.attach, Script.run_call_bind, Host.perform_openFile ho hl]
  dsimp only
  -- The file is open now, which matters to nothing that follows.
  have hl₁ : ({ h with opened := file :: h.opened } : Host).Lets path file :=
    ⟨hl.opens, hl.maps, hl.recognises⟩
  have hdisk₁ : ({ h with opened := file :: h.opened } : Host).disk = h.disk := rfl
  generalize ({ h with opened := file :: h.opened } : Host) = h₁ at hl₁ hdisk₁ ⊢
  have hmeasure : h₁.perform (.fileLength file) = ((h.disk.shared file).region.size, h₁) := by
    rw [← hdisk₁]
    exact Host.perform_eq fun _ => rfl
  rw [Script.run_call_bind, hmeasure]
  dsimp only
  by_cases hshort : (h.disk.shared file).region.size < Layout.headerSize
  · rw [if_pos hshort, Script.run_call_bind, Script.run_pure,
      Region.verdict_of_unready (Or.inl hshort)]
    exact ⟨_, _, rfl, rfl, nofun⟩
  have hlong := Nat.le_of_not_lt hshort
  have hlength : (h.disk.shared file).region.size ≠ 0 :=
    Nat.ne_of_gt (Nat.lt_of_lt_of_le (by decide) hlong)
  obtain ⟨mapping, h₂, hmap, hfile, hdisk₂⟩ := Host.exists_map hl₁ hlength
  rw [if_neg hshort, Script.run_call_bind, hmap, Script.run_call_bind, Host.perform_closeFile]
  dsimp only
  replace hfile : ({ h₂ with opened := h₂.opened.erase file } : Host).fileOf mapping = file := hfile
  replace hdisk₂ : ({ h₂ with opened := h₂.opened.erase file } : Host).disk = h.disk :=
    hdisk₂.trans hdisk₁
  generalize ({ h₂ with opened := h₂.opened.erase file } : Host) = h₃ at hfile hdisk₂ ⊢
  have hshared : h₃.shared mapping = h.disk.shared file := by rw [Host.shared, hfile, hdisk₂]
  rw [← hshared] at hlong ⊢
  rw [Script.run_bind_of_ok (Store.run_through_preamble (by rw [hfile, hdisk₂]; exact hlt) hlong)]
  cases (h₃.shared mapping).region.verdict with
  | ok sizing =>
    refine ⟨.ok ⟨mapping, sizing⟩, h₃, rfl, rfl, fun store hstore => ?_⟩
    cases hstore
    exact hfile
  | error error => exact ⟨.error error, _, rfl, rfl, nofun⟩

/-- The mode lets the owner of a file read and write it. -/
def Disk.Grants (mode : Nat) : Prop :=
  mode &&& (ownerReads ||| ownerWrites) = ownerReads ||| ownerWrites

instance (mode : Nat) : Decidable (Disk.Grants mode) := inferInstanceAs (Decidable (_ = _))

namespace Disk

/-- Whatever the system takes away of a mode, it leaves the owner's bits. -/
theorem Grants.granted (hm : Grants mode) : Grants (granted mode) := by
  unfold Grants Disk.granted at *
  rw [Nat.and_assoc]
  exact hm

theorem Grants.tamed (hm : Grants mode) : Grants (tamed mode) := by
  unfold Grants Disk.tamed at *
  split
  · rw [Nat.and_assoc]
    exact hm
  · rw [Nat.and_assoc]
    exact hm

theorem permits_iff {bits : Nat} : d.permits file bits = true ↔
    ∃ f, d.files[file]? = some f ∧ f.mode &&& bits = bits := by
  unfold permits
  cases d.files[file]? with
  | none => simp
  | some f => simp

/-- The path goes on leading to a file whose owner goes on being allowed to open it. -/
theorem Opens.congr {d' : Disk} (ho : d.Opens path file) (hnodes : d'.nodes = d.nodes)
    (hfiles : ∀ f, d.files[file]? = some f → Grants f.mode →
      ∃ f', d'.files[file]? = some f' ∧ Grants f'.mode) : d'.Opens path file := by
  obtain ⟨p, hp, hopen⟩ := ho
  obtain ⟨hfind, hpermits⟩ := openFile_ok hopen
  obtain ⟨f, hf, hmode⟩ := permits_iff.mp hpermits
  have hpermits' := permits_iff.mpr (hfiles f hf hmode)
  refine ⟨p, hp, ?_⟩
  simp only [openFile, find_congr hnodes, hfind, bind, Except.bind, hpermits', if_true, pure,
    Except.pure]

theorem Opens.setShared (ho : d.Opens path file) (other : Nat) (q : Shared) :
    (d.setShared other q).Opens path file := by
  refine ho.congr rfl fun f hf hmode => ?_
  simp only [Disk.setShared, Array.getElem?_modify, hf]
  split
  · exact ⟨_, rfl, hmode⟩
  · exact ⟨f, rfl, hmode⟩

theorem Opens.setLength (ho : d.Opens path file) (length : Nat) :
    (d.setLength file length).Opens path file := by
  have hcut := ho.setShared file
    { d.shared file with region := (d.shared file).region.resize length }
  rw [setLength_eq]
  dsimp only
  generalize d.setShared file _ = cut at hcut ⊢
  refine hcut.congr rfl fun f hf hmode => ?_
  simp only [Array.getElem?_modify, hf, if_true]
  exact ⟨_, rfl, hmode.tamed⟩

end Disk

namespace Host

/-- The path of a new file leads to it, and its owner may open it if the mode says so. -/
theorem opens_of_createFile (hf : h.disk.Formed) (hm : Disk.Grants mode)
    (hrun : h.perform (.createFile path mode) = (.ok file, h')) : h'.disk.Opens path file := by
  have hdone := carryOut_of_perform hrun fun _ => nofun
  rcases h.carryOut_createFile_cases path mode with ⟨p, disk, hpath, hcreate, hmade⟩ | ⟨error, hmade⟩
  · cases hmade.symm.trans hdone
    obtain ⟨-, hfiles⟩ := Disk.createFile_ok hcreate
    have hpermits :
        disk.permits h.disk.files.size (Disk.ownerReads ||| Disk.ownerWrites) = true := by
      refine Disk.permits_iff.mpr ⟨_, by rw [hfiles, Array.getElem?_push_size], ?_⟩
      exact hm.granted
    refine ⟨p, hpath, ?_⟩
    simp only [Disk.openFile, Disk.find_of_createFile hf hcreate, bind, Except.bind, hpermits,
      if_true, pure, Except.pure]
  · cases hmade.symm.trans hdone

theorem opens_of_setFileLength {length : Nat} (ho : h.disk.Opens path file)
    (hrun : h.perform (.setFileLength file length) = (.ok (), h')) : h'.disk.Opens path file := by
  cases carryOut_of_perform hrun fun _ => nofun
  exact ho.setLength length

end Host

/-- A process that has mapped a file anew recognises it. -/
theorem Host.recognises_of_map {length mapping : Nat} (hu : h.Unmapped file)
    (hrun : h.perform (.map file length) = (.ok mapping, h')) : h'.Recognises file := by
  obtain ⟨hfile, -⟩ := map_ok hu hrun
  obtain ⟨rfl, rfl⟩ := hu.map_eq hrun
  intro entry hentry hidentity _
  rcases List.mem_cons.mp hentry with rfl | hkept
  · exact hfile
  · obtain ⟨hknown, hinUse⟩ := List.mem_filter.mp hkept
    rw [hu.unused entry hknown hidentity] at hinUse
    cases hinUse

namespace Store

/-- The path of a created file leads to it, and its creator recognises it. -/
theorem created_file {created : Host} (hs : h.Sound) (hf : h.disk.Formed)
    (hrun : (create path s mode).run h = (.ok (.ok store), created)) :
    (Disk.Grants mode → created.disk.Opens path (created.fileOf store.mapping)) ∧
      created.Recognises (created.fileOf store.mapping) := by
  obtain ⟨-, -, file, h₁, h₂, h₃, hcreate, hlength, hmap, rfl⟩ := run_create_eq_ok.mp hrun
  obtain ⟨hu₂, -⟩ := Host.setFileLength_ok (Host.createFile_ok hs hcreate).1 hlength
  obtain ⟨hfile, hdisk⟩ := Host.map_ok hu₂ hmap
  change (Disk.Grants mode → h₃.disk.Opens path (h₃.fileOf store.mapping)) ∧
    h₃.Recognises (h₃.fileOf store.mapping)
  rw [hfile, hdisk]
  exact ⟨fun hm => Host.opens_of_setFileLength (Host.opens_of_createFile hf hm hcreate) hlength,
    Host.recognises_of_map hu₂ hmap⟩

end Store

/-- A file that has been created tells that it is not ready, and a file that has been initialised
as well tells its sizing. -/
theorem Store.created_tells {created : Host} (hs : h.Sound) (hf : h.disk.Formed)
    (hm : Disk.Grants mode) (hcreate : (create path s mode).run h = (.ok (.ok store), created)) :
    created.disk.Tells path (created.fileOf store.mapping) (.error .notReady) ∧
      ∀ ready, store.initialise.run created = (.ok (.ok ()), ready) →
        ready.disk.Tells path (created.fileOf store.mapping) (.ok s) := by
  obtain ⟨hvalid, -, hlt, hshared⟩ := create_ok hs hcreate
  have hopens := (created_file hs hf hcreate).1 hm
  constructor
  · have htells := Disk.tells_verdict hopens
    rw [← Host.shared, hshared, Region.verdict_resize] at htells
    exact htells
  · intro ready hinitialise
    rcases run_initialise_created hs hcreate with ⟨error, h', hrun, -⟩ | ⟨r, hvacant, hrun⟩
    · rw [hrun] at hinitialise
      cases hinitialise
    · rw [hrun] at hinitialise
      cases hinitialise
      have htells := Disk.tells_verdict (hopens.setShared (created.fileOf store.mapping)
        { region := r.write .tag Layout.validTag })
      rw [Disk.shared_setShared hlt, hvacant.fresh.verdict_eq hvalid] at htells
      exact htells

/-- Attaching tells queue files from others by their bytes alone, and it changes none. No file is
created in a sizing outside the limits. A file that is created in another one is not ready, and
once it has been initialised whoever attaches learns the sizing it was created in. -/
theorem attaches_to_queue_files_only (h : Host) (path : String) (s : Sizing) (mode : Nat) :
    ((Store.attach path).run h).2.disk = h.disk ∧
    (∀ file, h.disk.Opens path file →
      h.disk.Tells path file (h.disk.shared file).region.verdict) ∧
    (¬ s.Valid → (Store.create path s mode).run h = (.ok (.error .invalidAttributes), h)) ∧
    (s.Valid → h.Sound → h.refused = (fun _ => none) →
      ∀ file h', h.perform (.createFile path mode) = (.ok file, h') →
        ∃ store created ready, (Store.create path s mode).run h = (.ok (.ok store), created) ∧
          store.initialise.run created = (.ok (.ok ()), ready)) ∧
    ∀ store created, h.Sound → h.disk.Formed → Disk.Grants mode →
      (Store.create path s mode).run h = (.ok (.ok store), created) →
        created.Recognises (created.fileOf store.mapping) ∧
        created.disk.Tells path (created.fileOf store.mapping) (.error .notReady) ∧
        ∀ ready, store.initialise.run created = (.ok (.ok ()), ready) →
          ready.disk.Tells path (created.fileOf store.mapping) (.ok s) := by
  refine ⟨Store.disk_attach path h, fun file => Disk.tells_verdict, ?_, ?_, ?_⟩
  · intro hs
    rw [Store.create, Sizing.fileSize?_of_not_valid hs]
    rfl
  · intro hs hsound hw file h₁ hfile
    exact Store.made_of_willing hsound hs hw hfile
  · intro store created hsound hf hm hcreate
    obtain ⟨htells, hready⟩ := Store.created_tells hsound hf hm hcreate
    exact ⟨(Store.created_file hsound hf hcreate).2, htells, hready⟩

theorem attaches_to_created_queue : ∃ (store : Store) (made created ready : Host),
    ({} : Host).perform (.createFile "/q" 0o600) = (.ok 0, made) ∧
      made.disk.Tells "/q" 0 (.error .notReady) ∧
    (Store.create "/q" ⟨0, 4⟩ 0o600).run {} = (.ok (.error .invalidAttributes), {}) ∧
    (Store.create "/q" ⟨2, 4⟩ 0o600).run {} = (.ok (.ok store), created) ∧
    store.initialise.run created = (.ok (.ok ()), ready) ∧
    ∃ mapped g, (Store.attach "/q").run { disk := ready.disk } = (.ok (.ok mapped), g) ∧
      mapped.sizing = ⟨2, 4⟩ := by
  obtain ⟨made, hfile⟩ : ∃ made, ({} : Host).perform (.createFile "/q" 0o600) = (.ok 0, made) :=
    ⟨_, Prod.ext rfl rfl⟩
  have hformed : ({} : Host).disk.Formed := Disk.formed_fresh
  have hgrants : Disk.Grants 0o600 := by decide
  -- An empty file is a file like any other.
  have htells := (attaches_to_queue_files_only made "/q" ⟨2, 4⟩ 0o600).2.1 0
    (Host.opens_of_createFile hformed hgrants hfile)
  have hempty := (Host.createFile_ok Host.sound_default hfile).2
  rw [hempty] at htells
  have hrefuses := (attaches_to_queue_files_only {} "/q" ⟨0, 4⟩ 0o600).2.2.1 (by decide)
  obtain ⟨-, -, -, hmakes, hcreates⟩ := attaches_to_queue_files_only {} "/q" ⟨2, 4⟩ 0o600
  obtain ⟨store, created, ready, hcreate, hinitialise⟩ :=
    hmakes (by decide) Host.sound_default rfl 0 made hfile
  obtain ⟨-, -, hready⟩ := hcreates store created Host.sound_default hformed hgrants hcreate
  obtain ⟨answer, g, hattach, hanswer, -⟩ := hready ready hinitialise { disk := ready.disk } rfl
    ⟨rfl, fun _ => rfl, fun _ hentry => absurd hentry List.not_mem_nil⟩
  refine ⟨store, made, created, ready, hfile, htells, hrefuses, hcreate, hinitialise, ?_⟩
  cases answer with
  | error error => cases hanswer
  | ok mapped => exact ⟨mapped, g, hattach, Except.ok.inj hanswer⟩

end MappedQueue
