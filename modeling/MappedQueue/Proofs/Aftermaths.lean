import MappedQueue.Proofs.Incarnations
import MappedQueue.Proofs.Openings

/-!
# What an operation of an opening leaves

An operation that an opening may do is refused, looks at the file that was found last, changes
a new file that is still the thread's own, or does something at the path of the queue. A new
file goes from raw to prepared and from prepared to published, and is right at each stage.
-/

namespace MappedQueue

variable {directory name : String} {s : Sizing} {c : Account} {operation : Operation}

/-- What a new file is like at its stage. -/
def Draft.Right (s : Sizing) : Draft → Prop
  | ⟨r, .raw⟩ => r.read .tag = 0 ∧ (r.size = 0 ∨ r.size = s.fileSize)
  | ⟨r, .prepared⟩ => r.read .tag = 0 ∧ Vacant s r
  | ⟨r, .published⟩ => Fresh s { region := r }

/-- A change to a new file that its maker may make. -/
structure Revises (s : Sizing) (draft draft' : Draft) : Prop where
  unpublished : draft.stage ≠ .published
  size : draft.region.size = 0 ∨ draft'.region.size = draft.region.size
  right (h : draft.Right s) : draft'.Right s

theorem Account.Allows.resizes {file n : Nat}
    (hallows : c.Allows directory name s (.setFileLength file n)) :
    c.draft = some ⟨Region.zeros 0, .raw⟩ ∧
      Revises s ⟨Region.zeros 0, .raw⟩ ⟨(Region.zeros 0).resize n, .raw⟩ := by
  obtain ⟨hdraft, rfl⟩ := hallows
  refine ⟨hdraft, nofun, Or.inl rfl, fun _ => ⟨Region.read_tag_resize _, Or.inr ?_⟩⟩
  exact Region.size_slice ..

theorem Account.Allows.stores {mapping value : Nat} {field : Field}
    (hallows : c.Allows directory name s (.store mapping field value)) :
    ∃ draft, c.draft = some draft ∧ Revises s draft ⟨draft.region.write field value,
      if field = .tag then .published else .raw⟩ := by
  obtain ⟨r, ⟨hdraft, hapart⟩ | ⟨hdraft, rfl, rfl⟩⟩ := hallows
  · have hfield : field ≠ .tag := by
      rintro rfl
      exact absurd hapart (by decide)
    rw [if_neg hfield]
    have hsize := Region.size_write r field value
    refine ⟨_, hdraft, nofun, Or.inr hsize, fun hright => ⟨?_, ?_⟩⟩
    · have hswap : field.Apart .tag := Or.symm hapart
      exact (Region.read_write_of_apart r hswap value).trans hright.1
    · rw [hsize]
      exact hright.2
  · rw [if_pos rfl]
    refine ⟨⟨r, .prepared⟩, hdraft, ?_⟩
    have hsize := Region.size_write r .tag Layout.validTag
    have hfresh : Vacant s r → Fresh s { region := r.write .tag Layout.validTag } := Vacant.fresh
    dsimp only
    generalize r.write .tag Layout.validTag = r' at *
    exact ⟨nofun, Or.inr hsize, fun hright => hfresh hright.2⟩

theorem Account.Allows.prepares {mapping : Nat}
    (hallows : c.Allows directory name s (.prepareLock mapping)) :
    ∃ r, c.draft = some ⟨r, .raw⟩ ∧ Revises s ⟨r, .raw⟩
      ⟨r.setSlice Layout.lockOffset (Region.zeroBytes Layout.lockSize), .prepared⟩ := by
  obtain ⟨r, hdraft, hvacant⟩ := hallows
  refine ⟨r, hdraft, ?_⟩
  have hprepared := hvacant.prepared
  have hagree : Region.Agree r (r.setSlice Layout.lockOffset (Region.zeroBytes Layout.lockSize)) 0
      Layout.lockOffset := Region.agree_setSlice r (Or.inl (Nat.le_refl _))
  have hsize := Region.size_setSlice r Layout.lockOffset (Region.zeroBytes Layout.lockSize)
  generalize r.setSlice Layout.lockOffset (Region.zeroBytes Layout.lockSize) = r' at *
  have htag : r'.read .tag = r.read .tag := hagree.read (by decide) (by decide)
  exact ⟨nofun, Or.inr hsize, fun hright => ⟨htag.trans hright.1, hprepared⟩⟩

/-- What the paths and files of a disk have to do with an operation of an opening, and what it
comes to for its account. -/
inductive Aftermath (directory name : String) (s : Sizing) (found : Option Nat) (c : Account) (d : Disk) :
    Deed → Disk → Prop
  | rest {deed : Deed} (hhands : ∀ hands : Hands, (hands.after deed).found = hands.found)
      (hidle : c.after deed = c) : Aftermath directory name s found c d deed d
  /-- The attempt goes on without a new sight, or ends. -/
  | miss {deed : Deed} {look : Look} (hhands : ∀ hands : Hands, (hands.after deed).found = hands.found)
      (hafter : c.after deed = { c with look })
      (hlook : look.file = none ∨ look = { c.look with failure := look.failure }) :
      Aftermath directory name s found c d deed d
  | found {path : Path} {file : Nat} (hpath : Path.ofString (Name.storePath directory name) = .ok path)
      (hopen : d.openFile path = .ok file) (hdraft : c.draft = none) :
      Aftermath directory name s found c d ⟨.openFile (Name.storePath directory name), .ok file⟩ d
  | measured {file : Nat} (hfound : found = some file) (hlook : c.look.file ≠ none) :
      Aftermath directory name s found c d ⟨.fileLength file, (d.shared file).region.size⟩ d
  | read {mapping file : Nat} {field : Field} (hfound : found = some file)
      (hfield : field = .tag ∨ c.look.tag = some Layout.validTag ∧
        (field = .capacity ∨ field = .messageSize)) :
      Aftermath directory name s found c d ⟨.load mapping field, (d.shared file).region.read field⟩ d
  | houses {path : Path} (hname : Name.validate name = .ok ())
      (hpath : Path.ofString directory = .ok path) :
      Aftermath directory name s found c d ⟨.makeDirectories directory, (d.makeDirectories path).1⟩
        (d.makeDirectories path).2
  | makes {path : Path} {mode identity serial : Nat} {d' : Disk}
      (hpath : Path.ofString (Name.storePath directory name) = .ok path)
      (hcreate : d.createFile path mode identity = .ok (serial, d')) (hhoused : c.housed = true)
      (hdraft : c.draft = none) (hs : s.Valid) :
      Aftermath directory name s found c d
        ⟨.createFile (Name.storePath directory name) mode, .ok serial⟩ d'
  | revises {deed : Deed} {file : Nat} {draft draft' : Draft} {d' : Disk}
      (hhands : ∀ hands : Hands, (hands.after deed).found = hands.found)
      (hfound : found = some file) (hdraft : c.draft = some draft)
      (hafter : c.after deed = { c with draft := some draft' }) (hrevises : Revises s draft draft')
      (hnodes : d'.nodes = d.nodes) (hsize : d'.files.size = d.files.size)
      (hself : d.shared file = { region := draft.region } → d'.shared file = { region := draft'.region })
      (hothers : ∀ other ≠ file, d'.shared other = d.shared other) :
      Aftermath directory name s found c d deed d'
  | drops {path : String} {outcome : Except SystemError Unit} {r : Region}
      (hdraft : c.draft = some ⟨r, .raw⟩) :
      Aftermath directory name s found c d ⟨.removeFile path, outcome⟩ d
  | removes {path : Path} {r : Region} {outcome : Except SystemError Unit} {d' : Disk}
      (hpath : Path.ofString (Name.storePath directory name) = .ok path)
      (hunlink : d.unlink path = .ok d') (hdraft : c.draft = some ⟨r, .raw⟩) :
      Aftermath directory name s found c d ⟨.removeFile (Name.storePath directory name), outcome⟩ d'

/-- A file changes, and the tree does not. -/
theorem Aftermath.of_setShared {d : Disk} {found : Option Nat} {deed : Deed} {file : Nat}
    {draft draft' : Draft} {q : Shared} (hhands : ∀ hands : Hands, (hands.after deed).found = hands.found)
    (hlt : file < d.files.size) (hfound : found = some file)
    (hdraft : c.draft = some draft) (hafter : c.after deed = { c with draft := some draft' })
    (hrevises : Revises s draft draft')
    (hq : d.shared file = { region := draft.region } → q = { region := draft'.region }) :
    Aftermath directory name s found c d deed (d.setShared file q) :=
  .revises hhands hfound hdraft hafter hrevises rfl (Disk.size_setShared ..)
    (fun hself => (Disk.shared_setShared hlt).trans (hq hself))
    fun _ hne => Disk.shared_setShared_of_ne hne

/-- What an operation of an opening comes to, whether the system refuses it or does it. -/
theorem Aftermath.of_perform {h : Host} {hands : Hands} (hallows : c.Allows directory name s operation)
    (hhands : hands.Allows operation) (hheld : hands.Held h) :
    Aftermath directory name s hands.found c h.disk ⟨operation, (h.perform operation).1⟩
      (h.perform operation).2.disk := by
  rcases h.perform_cases operation with ⟨error, outcome, hrefused, hp⟩ | hp
  · rw [hp]
    cases operation with
    | removeFile path =>
      obtain ⟨-, r, hdraft⟩ := hallows
      exact .drops hdraft
    | openFile path =>
      cases hrefused
      exact .miss (fun _ => rfl) rfl (Or.inl rfl)
    | map file length =>
      cases hrefused
      exact .miss (fun _ => rfl) rfl (Or.inr rfl)
    | _ => cases hrefused <;> exact .rest (fun _ => rfl) rfl
  rw [hp]
  cases operation with
  | makeDirectories path =>
    obtain ⟨rfl, hname⟩ := hallows
    simp only [Host.carryOut]
    split
    · rename_i path hpath
      exact .houses hname hpath
    · exact .rest (fun _ => rfl) rfl
  | createFile path mode =>
    obtain ⟨rfl, hhoused, hdraft, hs⟩ := hallows
    rcases h.carryOut_createFile_cases (Name.storePath directory name) mode with
      ⟨p, disk, hpath, hcreate, hdone⟩ | ⟨error, hdone⟩
    · rw [hdone]
      exact .makes hpath hcreate hhoused hdraft hs
    · rw [hdone]
      exact .rest (fun _ => rfl) rfl
  | openFile path =>
    obtain ⟨rfl, hdraft⟩ := hallows
    rcases h.carryOut_openFile_cases (Name.storePath directory name) with
      ⟨p, file, hpath, hopen, hdone⟩ | ⟨error, hdone⟩
    · rw [hdone]
      exact .found hpath hopen hdraft
    · rw [hdone]
      exact .miss (fun _ => rfl) rfl (Or.inl rfl)
  | closeFile file => exact .rest (fun _ => rfl) rfl
  | removeFile path =>
    obtain ⟨rfl, r, hdraft⟩ := hallows
    rcases h.carryOut_removeFile_cases (Name.storePath directory name) with
      ⟨p, disk, hpath, hunlink, hdone⟩ | ⟨error, hdone⟩
    · rw [hdone]
      exact .removes hpath hunlink hdraft
    · rw [hdone]
      exact .drops hdraft
  | fileLength file => exact .measured (hheld.file_eq file hhands) hallows
  | setFileLength file length =>
    obtain ⟨hdraft, hrevises⟩ := hallows.resizes
    have hfound := hheld.file_eq file hhands.1
    have hlt := hheld.found_lt file hfound
    refine .revises (fun _ => rfl) hfound hdraft ?_ hrevises ?_ ?_ (fun hself => ?_) fun other hne => ?_
    · simp only [Host.carryOut, Account.after, Account.revise, hdraft, Option.map_some]
    · change (h.disk.setLength file length).nodes = h.disk.nodes
      rw [Disk.setLength_eq]
      rfl
    · change (h.disk.setLength file length).files.size = h.disk.files.size
      rw [Disk.setLength_eq]
      exact Array.size_modify.trans (Disk.size_setShared ..)
    · refine (Disk.shared_setLength hlt).trans ?_
      rw [hself]
    · exact Disk.shared_setLength_of_ne hne
  | map file length =>
    simp only [Host.carryOut, Host.map]
    split
    · exact .rest (fun _ => rfl) rfl
    · split
      · exact .miss (fun _ => rfl) rfl (Or.inr rfl)
      · exact .rest (fun _ => rfl) rfl
  | unmap mapping => exact .rest (fun _ => rfl) rfl
  | load mapping field =>
    exact .read (hheld.mapping_eq mapping hhands) hallows.2
  | store mapping field value =>
    obtain ⟨draft, hdraft, hrevises⟩ := hallows.stores
    have hfound := hheld.mapping_eq mapping hhands.1
    have haccess := Host.access_eq h mapping fun q => ((), { q with region := q.region.write field value })
    simp only [Host.carryOut, Host.edit, haccess]
    refine .of_setShared (fun _ => rfl) (hheld.found_lt _ hfound) hfound hdraft ?_ hrevises fun hself => ?_
    · simp only [Account.after, Account.revise, hdraft, Option.map_some]
    · dsimp only
      rw [Host.shared, hself]
  | fetch mapping offset count => exact absurd hallows id
  | put mapping offset bytes => exact absurd hallows id
  | prepareLock mapping =>
    obtain ⟨r, hdraft, hrevises⟩ := hallows.prepares
    have hfound := hheld.mapping_eq mapping hhands.1
    rw [Host.carryOut_prepareLock, Host.access_eq]
    refine .of_setShared (fun _ => rfl) (hheld.found_lt _ hfound) hfound hdraft ?_ hrevises fun hself => ?_
    · simp only [Account.after, Account.revise, hdraft, Option.map_some]
    · dsimp only
      rw [Host.shared, hself]
  | pause => exact .rest (fun _ => rfl) rfl

end MappedQueue
