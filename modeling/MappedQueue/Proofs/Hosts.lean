import MappedQueue.Script

/-!
# Files and mappings

A program that runs through a mapping does to the file behind it what it does to a region.
No operation of the system changes the identity of a file, so a mapping that is found by
an identity is a mapping of the file that has it, and a new file is found under none.
-/

namespace MappedQueue

/-- To change an entry into itself changes nothing. -/
theorem modify_eq_self {α : Type} {xs : Array α} {i : Nat} {f : α → α}
    (h : ∀ a, xs[i]? = some a → f a = a) : xs.modify i f = xs := by
  apply Array.ext_getElem?
  intro j
  rw [Array.getElem?_modify]
  split
  · rename_i hij
    subst hij
    cases hj : xs[i]? with
    | none => rfl
    | some a => exact congrArg some (h a hj)
  · rfl

/-- An entry of a changed array is what it was, or what the change makes of it. -/
theorem getElem?_modify_cases {α : Type} (xs : Array α) (i : Nat) (f : α → α) (j : Nat) :
    (xs.modify i f)[j]? = xs[j]? ∨ ∃ a, xs[j]? = some a ∧ (xs.modify i f)[j]? = some (f a) := by
  rw [Array.getElem?_modify]
  split
  · cases xs[j]? with
    | none => exact Or.inl rfl
    | some a => exact Or.inr ⟨a, rfl, rfl⟩
  · exact Or.inl rfl

namespace Disk

variable {d d' : Disk} {serial : Nat} {q : Shared}

@[simp] theorem size_setShared (d : Disk) (serial : Nat) (q : Shared) :
    (d.setShared serial q).files.size = d.files.size := Array.size_modify

theorem shared_setShared (h : serial < d.files.size) :
    (d.setShared serial q).shared serial = q := by
  simp only [shared, setShared, Array.getElem?_modify, Array.getElem?_eq_getElem h, if_true,
    Option.map_some]

theorem shared_setShared_of_ne {other : Nat} (h : other ≠ serial) :
    (d.setShared serial q).shared other = d.shared other := by
  simp only [shared, setShared, Array.getElem?_modify, if_neg (Ne.symm h)]

theorem setShared_setShared (d : Disk) (serial : Nat) (q q' : Shared) :
    (d.setShared serial q).setShared serial q' = d.setShared serial q' := by
  simp only [setShared]
  congr 1
  apply Array.ext_getElem?
  intro i
  simp only [Array.getElem?_modify]
  split
  · rw [Option.map_map]
    rfl
  · rfl

theorem setShared_shared (d : Disk) (serial : Nat) : d.setShared serial (d.shared serial) = d := by
  have hfiles : d.files.modify serial (fun file => { file with shared := d.shared serial }) =
      d.files := modify_eq_self fun file hfile => by
    simp only [shared, hfile]
  exact congrArg (fun files => { d with files }) hfiles

theorem identity_modify (d : Disk) (serial : Nat) {f : File → File}
    (hf : ∀ file, (f file).identity = file.identity) (other : Nat) :
    identity { d with files := d.files.modify serial f } other = d.identity other := by
  simp only [identity]
  rcases getElem?_modify_cases d.files serial f other with hsame | ⟨file, hfile, hchanged⟩
  · rw [hsame]
  · rw [hchanged, hfile]
    exact hf file

theorem shared_modify (d : Disk) (serial : Nat) {f : File → File}
    (hf : ∀ file, (f file).shared = file.shared) (other : Nat) :
    shared { d with files := d.files.modify serial f } other = d.shared other := by
  simp only [shared]
  rcases getElem?_modify_cases d.files serial f other with hsame | ⟨file, hfile, hchanged⟩
  · rw [hsame]
  · rw [hchanged, hfile]
    exact hf file

theorem access_eq {α : Type} (d : Disk) (serial : Nat) (f : Shared → α × Shared) :
    d.access serial f =
      ((f (d.shared serial)).1, d.setShared serial (f (d.shared serial)).2) := by
  simp only [access, takeShared, setShared_setShared]

/-- All files of the one disk are files of the other, with the identities they have. -/
structure Extends (d d' : Disk) : Prop where
  size_le : d.files.size ≤ d'.files.size
  identity_eq : ∀ serial < d.files.size, d'.identity serial = d.identity serial

theorem Extends.of_files (h : d'.files = d.files) : Extends d d' :=
  ⟨Nat.le_of_eq (congrArg Array.size h).symm, fun _ _ => by simp only [identity, h]⟩

theorem Extends.of_push {file : File} (h : d'.files = d.files.push file) : Extends d d' := by
  refine ⟨by rw [h, Array.size_push]; exact Nat.le_succ _, fun serial hserial => ?_⟩
  simp only [identity, h, Array.getElem?_push_lt hserial, Array.getElem?_eq_getElem hserial]

theorem extends_setShared (d : Disk) (serial : Nat) (q : Shared) :
    Extends d (d.setShared serial q) :=
  ⟨Nat.le_of_eq (size_setShared ..).symm, fun _ _ =>
    identity_modify d serial (by intro _; rfl) _⟩

theorem setLength_eq (d : Disk) (serial length : Nat) :
    d.setLength serial length =
      let cut := d.setShared serial
        { d.shared serial with region := (d.shared serial).region.resize length }
      { cut with files := cut.files.modify serial fun file => { file with mode := tamed file.mode } } := by
  simp only [setLength, access_eq]

theorem extends_setLength (d : Disk) (serial length : Nat) :
    Extends d (d.setLength serial length) := by
  rw [setLength_eq]
  refine ⟨?_, fun other hother => ?_⟩
  · exact Nat.le_of_eq (Array.size_modify.trans (size_setShared ..)).symm
  · exact (identity_modify _ serial (by intro _; rfl) other).trans
      ((extends_setShared d serial _).identity_eq other hother)

theorem shared_setLength {length : Nat} (h : serial < d.files.size) :
    (d.setLength serial length).shared serial =
      { d.shared serial with region := (d.shared serial).region.resize length } := by
  rw [setLength_eq]
  exact (shared_modify _ serial (by intro _; rfl) serial).trans (shared_setShared h)

/-- What is put where nothing is yet has a name there. -/
theorem free_of_ok {α : Type} {x : Except SystemError Landing} {f : Nat → String → α} {a : α}
    (h : (do
      let landing ← x
      match landing.name, landing.node with
      | some name, none => return f landing.directory name
      | _, _ => .error (.code Errno.alreadyExists)) = .ok a) :
    ∃ directory name, x = .ok ⟨directory, some name, none⟩ ∧ a = f directory name := by
  cases x with
  | error error => cases h
  | ok landing =>
    obtain ⟨directory, name, node⟩ := landing
    cases name <;> cases node <;> cases h
    exact ⟨directory, _, rfl, rfl⟩

/-- Making a directory adds its name where the path leads. -/
theorem makeDirectory_adds {path : Path} (h : d.makeDirectory path = .ok d') :
    ∃ directory name, d.locate { follow := false } { path with closed := false } =
        .ok ⟨directory, some name, none⟩ ∧
      d' = d.addEntry directory name (.directory directory []) :=
  free_of_ok (f := fun directory name => d.addEntry directory name (.directory directory [])) h

/-- A new file gets the name at the place where the path leads. -/
theorem createFile_adds {path : Path} {mode identity : Nat}
    (h : d.createFile path mode identity = .ok (serial, d')) :
    ∃ directory name, d.locate { follow := false, makes := true } path =
        .ok ⟨directory, some name, none⟩ ∧ serial = d.files.size ∧
      d' = { d.addEntry directory name (.file serial) with
        files := d.files.push ⟨identity, granted mode, { region := Region.zeros 0 }⟩ } := by
  obtain ⟨directory, name, hl, heq⟩ := free_of_ok (f := fun directory name =>
    (d.files.size, { d.addEntry directory name (.file d.files.size) with
      files := d.files.push ⟨identity, granted mode, { region := Region.zeros 0 }⟩ })) h
  cases heq
  exact ⟨directory, name, hl, rfl, rfl⟩

theorem createFile_ok {path : Path} {mode identity : Nat}
    (h : d.createFile path mode identity = .ok (serial, d')) :
    serial = d.files.size ∧
      d'.files = d.files.push ⟨identity, granted mode, { region := Region.zeros 0 }⟩ := by
  obtain ⟨directory, name, -, rfl, rfl⟩ := createFile_adds h
  exact ⟨rfl, rfl⟩

/-- A path is opened that leads to a file, which its owner may read and write. -/
theorem openFile_ok {path : Path} (h : d.openFile path = .ok serial) :
    d.find path = .ok (.file serial) ∧ d.permits serial (ownerReads ||| ownerWrites) = true := by
  unfold openFile at h
  cases hfind : d.find path with
  | error error =>
    rw [hfind] at h
    cases h
  | ok kind =>
    rw [hfind] at h
    cases kind with
    | directory => cases h
    | link => cases h
    | file other =>
      simp only [bind, Except.bind] at h
      split at h
      case isFalse => cases h
      case isTrue hpermits =>
        cases h
        exact ⟨rfl, hpermits⟩

theorem openFile_lt {path : Path} (h : d.openFile path = .ok serial) : serial < d.files.size := by
  obtain ⟨-, hpermits⟩ := openFile_ok h
  refine Nat.lt_of_not_le fun hle => ?_
  rw [permits, Array.getElem?_eq_none hle] at hpermits
  cases hpermits

/-- A name that is removed is where the path leads. -/
theorem unlink_removes {path : Path} (h : d.unlink path = .ok d') :
    ∃ directory name node, d.locate { follow := false } path =
        .ok ⟨directory, some name, some node⟩ ∧ d' = d.removeEntry directory name := by
  unfold unlink at h
  cases hl : d.locate { follow := false } path with
  | error error =>
    rw [hl] at h
    cases h
  | ok landing =>
    rw [hl] at h
    obtain ⟨directory, name, node⟩ := landing
    cases name with
    | none => cases h
    | some name =>
      cases node with
      | none => cases h
      | some node =>
        simp only [bind, Except.bind] at h
        split at h
        · cases h
        · cases h
          exact ⟨directory, name, node, rfl, rfl⟩

theorem unlink_files {path : Path} (h : d.unlink path = .ok d') : d'.files = d.files := by
  obtain ⟨directory, name, node, -, rfl⟩ := unlink_removes h
  rfl

theorem makeDirectory_files {path : Path} (h : d.makeDirectory path = .ok d') :
    d'.files = d.files := by
  obtain ⟨directory, name, -, rfl⟩ := makeDirectory_adds h
  rfl

theorem makeAll_files (d : Disk) (absolute : Bool) (steps : List String) :
    (d.makeAll absolute steps).2.files = d.files := by
  fun_induction d.makeAll absolute steps with
  | case1 => rfl
  | case2 step before path d' hmake => exact makeDirectory_files hmake
  | case3 => rfl
  | case4 step before path error hmake hmissing error' d' hall ih =>
    rw [hall] at ih
    exact ih
  | case5 step before path error hmake hmissing d' hall d'' hagain ih =>
    rw [hall] at ih
    exact (makeDirectory_files hagain).trans ih
  | case6 step before path error hmake hmissing d' hall error' hagain ih =>
    rw [hall] at ih
    exact ih

end Disk

/-- The bookkeeping of files and mappings is right: what is open or mapped exists, and every
mapping is known by the identity of the file it maps. -/
structure Host.Sound (h : Host) : Prop where
  opened_lt : ∀ file ∈ h.opened, file < h.disk.files.size
  mapped_lt : ∀ mapping < h.mappings.size, h.fileOf mapping < h.disk.files.size
  known : ∀ entry ∈ h.known, entry.2 < h.mappings.size ∧
    h.disk.identity (h.fileOf entry.2) = entry.1

namespace Host

variable {h h' : Host}

theorem sound_default : Sound {} where
  opened_lt _ hfile := absurd hfile List.not_mem_nil
  mapped_lt _ hlt := absurd hlt (Nat.not_lt_zero _)
  known _ hentry := absurd hentry List.not_mem_nil

/-- More files do no harm. -/
theorem Sound.of_extends (hs : Sound h) {disk : Disk} (hd : Disk.Extends h.disk disk) :
    Sound { h with disk } where
  opened_lt file hfile := Nat.lt_of_lt_of_le (hs.opened_lt file hfile) hd.size_le
  mapped_lt mapping hlt := Nat.lt_of_lt_of_le (hs.mapped_lt mapping hlt) hd.size_le
  known entry hentry := by
    obtain ⟨hlt, hidentity⟩ := hs.known entry hentry
    exact ⟨hlt, (hd.identity_eq _ (hs.mapped_lt _ hlt)).trans hidentity⟩

theorem access_eq {α : Type} (h : Host) (mapping : Nat) (f : Shared → α × Shared) :
    h.access mapping f = ((f (h.shared mapping)).1,
      { h with disk := h.disk.setShared (h.fileOf mapping) (f (h.shared mapping)).2 }) := by
  simp only [access, takeDisk, Disk.access_eq]
  rfl

/-- The host on which the users of a mapped file share something else. -/
def withShared (h : Host) (mapping : Nat) (q : Shared) : Host :=
  { h with disk := h.disk.setShared (h.fileOf mapping) q }

theorem lt_withShared (h : Host) {mapping : Nat} (hlt : h.fileOf mapping < h.disk.files.size)
    (q : Shared) : (h.withShared mapping q).fileOf mapping <
      (h.withShared mapping q).disk.files.size :=
  Nat.lt_of_lt_of_eq hlt (Disk.size_setShared ..).symm

theorem shared_withShared {mapping : Nat} (hlt : h.fileOf mapping < h.disk.files.size)
    (q : Shared) : (h.withShared mapping q).shared mapping = q := Disk.shared_setShared hlt

theorem withShared_withShared (h : Host) (mapping : Nat) (q q' : Shared) :
    (h.withShared mapping q).withShared mapping q' = h.withShared mapping q' :=
  congrArg (fun disk => { h with disk }) (Disk.setShared_setShared ..)

theorem withShared_shared (h : Host) (mapping : Nat) :
    h.withShared mapping (h.shared mapping) = h :=
  congrArg (fun disk => { h with disk }) (Disk.setShared_shared ..)

theorem edit_eq (h : Host) (mapping : Nat) (f : Region → Region) : h.edit mapping f =
    h.withShared mapping { h.shared mapping with region := f (h.shared mapping).region } := by
  rw [edit, access_eq]
  rfl

/-- Preparing the lock frees it. -/
theorem carryOut_prepareLock (h : Host) (mapping : Nat) :
    h.carryOut (.prepareLock mapping) = (.ok (), (h.access mapping fun q => ((),
      { region := q.region.setSlice Layout.lockOffset (Region.zeroBytes Layout.lockSize) })).2) :=
  rfl

theorem Sound.access {α : Type} (hs : Sound h) (mapping : Nat) (f : Shared → α × Shared) :
    Sound (h.access mapping f).2 := by
  rw [access_eq]
  exact hs.of_extends (Disk.extends_setShared ..)

theorem Sound.open_file (hs : Sound h) {file : Nat} (hfile : file < h.disk.files.size) :
    Sound { h with opened := file :: h.opened } where
  opened_lt other hother := by
    rcases List.mem_cons.mp hother with rfl | hother
    · exact hfile
    · exact hs.opened_lt other hother
  mapped_lt := hs.mapped_lt
  known := hs.known

theorem fileOf_modify (h : Host) (mapping : Nat) {f : Mapping → Mapping}
    (hf : ∀ m, (f m).file = m.file) (other : Nat) :
    fileOf { h with mappings := h.mappings.modify mapping f } other = h.fileOf other := by
  simp only [fileOf]
  rcases getElem?_modify_cases h.mappings mapping f other with hsame | ⟨m, hm, hchanged⟩
  · rw [hsame]
  · rw [hchanged, hm]
    exact hf m

theorem Sound.modify (hs : Sound h) (mapping : Nat) {f : Mapping → Mapping}
    (hf : ∀ m, (f m).file = m.file) :
    Sound { h with mappings := h.mappings.modify mapping f } where
  opened_lt := hs.opened_lt
  mapped_lt other hlt := by
    rw [Array.size_modify] at hlt
    rw [fileOf_modify h mapping hf]
    exact hs.mapped_lt other hlt
  known entry hentry := by
    rw [Array.size_modify, fileOf_modify h mapping hf]
    exact hs.known entry hentry

theorem Sound.forget (hs : Sound h) (q : Nat × Nat → Bool) :
    Sound { h with known := h.known.filter q } where
  opened_lt := hs.opened_lt
  mapped_lt := hs.mapped_lt
  known entry hentry := hs.known entry (List.mem_filter.mp hentry).1

theorem fileOf_push (h : Host) (m : Mapping) (mapping : Nat) :
    fileOf { h with mappings := h.mappings.push m } mapping =
      if mapping = h.mappings.size then m.file else h.fileOf mapping := by
  simp only [fileOf, Array.getElem?_push]
  split <;> rfl

/-- A new mapping is known by the identity of its file. -/
theorem Sound.push (hs : Sound h) {file : Nat} (hfile : file < h.disk.files.size) (length : Nat) :
    Sound { h with
      mappings := h.mappings.push ⟨file, length, 1⟩
      known := (h.disk.identity file, h.mappings.size) :: h.known } where
  opened_lt := hs.opened_lt
  mapped_lt mapping hlt := by
    rw [Array.size_push] at hlt
    change fileOf { h with mappings := h.mappings.push ⟨file, length, 1⟩ } mapping < _
    rw [fileOf_push]
    split
    · exact hfile
    · exact hs.mapped_lt mapping (by omega)
  known entry hentry := by
    change entry.2 < (h.mappings.push ⟨file, length, 1⟩).size ∧ h.disk.identity
      (fileOf { h with mappings := h.mappings.push ⟨file, length, 1⟩ } entry.2) = entry.1
    rw [Array.size_push, fileOf_push]
    rcases List.mem_cons.mp hentry with rfl | hentry
    · exact ⟨Nat.lt_succ_self _, by rw [if_pos rfl]⟩
    · obtain ⟨hlt, hidentity⟩ := hs.known entry hentry
      exact ⟨Nat.lt_succ_of_lt hlt, by rw [if_neg (Nat.ne_of_lt hlt)]; exact hidentity⟩

theorem Sound.map (hs : Sound h) {file : Nat} (hfile : file < h.disk.files.size) (length : Nat) :
    Sound (h.map file length).2 := by
  simp only [Host.map]
  split
  · exact hs.modify _ (by intro _; rfl)
  · split
    · exact hs.forget _
    · exact (hs.forget _).push hfile length

/-- What is done at a path fails, or the path is one and it succeeds there. -/
theorem bind_path_cases {α : Type} (path : String) (f : Path → Except SystemError α) :
    (∃ p a, Path.ofString path = .ok p ∧ f p = .ok a ∧ (Path.ofString path >>= f) = .ok a) ∨
      ∃ error, (Path.ofString path >>= f) = .error error := by
  cases hpath : Path.ofString path with
  | error error => exact Or.inr ⟨error, rfl⟩
  | ok p =>
    cases hf : f p with
    | error error => exact Or.inr ⟨error, hf⟩
    | ok a => exact Or.inl ⟨p, a, rfl, hf, hf⟩

/-- A new file is made at the path and opened, or nothing changes. -/
theorem carryOut_createFile_cases (h : Host) (path : String) (mode : Nat) :
    (∃ p disk, Path.ofString path = .ok p ∧
      h.disk.createFile p mode (h.numbering.1 h.used) = .ok (h.disk.files.size, disk) ∧
      h.carryOut (.createFile path mode) = (.ok h.disk.files.size,
        { h with disk, opened := h.disk.files.size :: h.opened })) ∨
      ∃ error, h.carryOut (.createFile path mode) = (.error error, h) := by
  simp only [carryOut]
  rcases bind_path_cases path (h.disk.createFile · mode (h.numbering.1 h.used)) with
    ⟨p, ⟨serial, disk⟩, hpath, hcreate, hdone⟩ | ⟨error, hdone⟩
  · obtain ⟨rfl, -⟩ := Disk.createFile_ok hcreate
    exact Or.inl ⟨p, disk, hpath, hcreate, by rw [hdone]⟩
  · exact Or.inr ⟨error, by rw [hdone]⟩

/-- The file that the path leads to is opened, or nothing changes. -/
theorem carryOut_openFile_cases (h : Host) (path : String) :
    (∃ p file, Path.ofString path = .ok p ∧ h.disk.openFile p = .ok file ∧
      h.carryOut (.openFile path) = (.ok file, { h with opened := file :: h.opened })) ∨
      ∃ error, h.carryOut (.openFile path) = (.error error, h) := by
  simp only [carryOut]
  rcases bind_path_cases path h.disk.openFile with
    ⟨p, file, hpath, hopen, hdone⟩ | ⟨error, hdone⟩
  · exact Or.inl ⟨p, file, hpath, hopen, by rw [hdone]⟩
  · exact Or.inr ⟨error, by rw [hdone]⟩

/-- The name at the path is removed, or nothing changes. -/
theorem carryOut_removeFile_cases (h : Host) (path : String) :
    (∃ p disk, Path.ofString path = .ok p ∧ h.disk.unlink p = .ok disk ∧
      h.carryOut (.removeFile path) = (.ok (), { h with disk })) ∨
      ∃ error, h.carryOut (.removeFile path) = (.error error, h) := by
  simp only [carryOut]
  rcases bind_path_cases path h.disk.unlink with
    ⟨p, disk, hpath, hunlink, hdone⟩ | ⟨error, hdone⟩
  · exact Or.inl ⟨p, disk, hpath, hunlink, by rw [hdone]⟩
  · exact Or.inr ⟨error, by rw [hdone]⟩

/-- Only files that are open are mapped. -/
def Proper (h : Host) : Operation → Prop
  | .map file _ => file ∈ h.opened
  | _ => True

theorem Sound.carryOut (hs : Sound h) {operation : Operation} (hp : h.Proper operation) :
    Sound (h.carryOut operation).2 := by
  cases operation with
  | makeDirectories path =>
    simp only [Host.carryOut]
    split
    · exact hs.of_extends (.of_files (Disk.makeAll_files ..))
    · exact hs
  | createFile path mode =>
    rcases h.carryOut_createFile_cases path mode with ⟨p, disk, -, hcreate, hdone⟩ | ⟨error, hdone⟩
    · obtain ⟨-, hfiles⟩ := Disk.createFile_ok hcreate
      rw [hdone]
      refine (hs.of_extends (.of_push hfiles)).open_file ?_
      rw [hfiles, Array.size_push]
      exact Nat.lt_succ_self _
    · rw [hdone]
      exact hs
  | openFile path =>
    rcases h.carryOut_openFile_cases path with ⟨p, file, -, hopen, hdone⟩ | ⟨error, hdone⟩
    · rw [hdone]
      exact hs.open_file (Disk.openFile_lt hopen)
    · rw [hdone]
      exact hs
  | closeFile file =>
    exact {
      opened_lt := fun other hother => hs.opened_lt other (List.mem_of_mem_erase hother)
      mapped_lt := hs.mapped_lt
      known := hs.known }
  | removeFile path =>
    rcases h.carryOut_removeFile_cases path with ⟨p, disk, -, hunlink, hdone⟩ | ⟨error, hdone⟩
    · rw [hdone]
      exact hs.of_extends (.of_files (Disk.unlink_files hunlink))
    · rw [hdone]
      exact hs
  | fileLength file => exact hs
  | setFileLength file length => exact hs.of_extends (Disk.extends_setLength ..)
  | map file length => exact hs.map (hs.opened_lt file hp) length
  | unmap mapping => exact hs.modify _ (by intro _; rfl)
  | load mapping field => exact hs
  | store mapping field value =>
    exact hs.access mapping fun q => ((), { q with region := q.region.write field value })
  | fetch mapping offset count => exact hs
  | put mapping offset bytes =>
    exact hs.access mapping fun q => ((), { q with region := q.region.setSlice offset bytes })
  | prepareLock mapping =>
    rw [carryOut_prepareLock]
    dsimp only
    exact hs.access ..
  | pause => exact hs

/-- An operation is refused, which changes nothing, or done. -/
theorem perform_cases (h : Host) (operation : Operation) :
    (∃ error outcome, refusal? error operation = some outcome ∧
      h.perform operation = (outcome, h)) ∨ h.perform operation = h.carryOut operation := by
  unfold perform
  cases hr : (h.refused operation).bind (refusal? · operation) with
  | none => exact Or.inr rfl
  | some outcome =>
    obtain ⟨error, -, herror⟩ := Option.bind_eq_some_iff.mp hr
    exact Or.inl ⟨error, outcome, herror, rfl⟩

/-- An outcome that no refusal has comes of doing the operation. -/
theorem carryOut_of_perform {operation : Operation} {outcome : operation.Outcome}
    (hrun : h.perform operation = (outcome, h'))
    (hnot : ∀ error, refusal? error operation ≠ some outcome) :
    h.carryOut operation = (outcome, h') := by
  rcases h.perform_cases operation with ⟨error, refusal, hrefused, hp⟩ | hp
  · rw [hp] at hrun
    cases hrun
    exact absurd hrefused (hnot error)
  · exact hp.symm.trans hrun

theorem perform_of_not_refused {operation : Operation} (ho : h.refused operation = none) :
    h.perform operation = h.carryOut operation := by
  rw [perform, ho]
  rfl

/-- A system that refuses nothing does what it is asked to. -/
theorem perform_of_willing (hw : h.refused = fun _ => none) (operation : Operation) :
    h.perform operation = h.carryOut operation := perform_of_not_refused (by rw [hw])

/-- Whatever a process does, its bookkeeping stays right. -/
theorem Sound.perform (hs : Sound h) {operation : Operation} (hp : h.Proper operation) :
    Sound (h.perform operation).2 := by
  rcases h.perform_cases operation with ⟨_, _, _, hrefused⟩ | hdone
  · rw [hrefused]
    exact hs
  · rw [hdone]
    exact hs.carryOut hp

/-- What cannot be refused is done. -/
theorem perform_eq {operation : Operation} (ho : ∀ error, refusal? error operation = none) :
    h.perform operation = h.carryOut operation := by
  rcases h.perform_cases operation with ⟨error, outcome, hrefused, -⟩ | hdone
  · rw [ho error] at hrefused
    cases hrefused
  · exact hdone

theorem perform_closeFile (h : Host) (file : Nat) :
    h.perform (.closeFile file) = ((), { h with opened := h.opened.erase file }) :=
  perform_eq fun _ => rfl

end Host

namespace Script

variable {α β : Type}

theorem run_bind (p : Script α) (k : α → Script β) : ∀ h : Host,
    (p >>= k).run h =
      match p.run h with
      | (.ok a, h') => (k a).run h'
      | (.error f, h') => (.error f, h') := by
  change ∀ h, (p.bind k).run h = _
  induction p with
  | done a => intro h; rfl
  | fault f => intro h; rfl
  | perform operation next ih => intro h; exact ih _ _

theorem run_bind_of_ok {p : Script α} {k : α → Script β} {h h' : Host} {a : α}
    (hp : p.run h = (.ok a, h')) : (p >>= k).run h = (k a).run h' := by
  rw [run_bind, hp]

@[simp] theorem run_pure (a : α) (h : Host) : (pure a : Script α).run h = (.ok a, h) := rfl

@[simp] theorem run_call (operation : Operation) (h : Host) :
    (call operation).run h = (.ok (h.perform operation).1, (h.perform operation).2) := rfl

@[simp] theorem run_call_bind (operation : Operation) (k : operation.Outcome → Script β) (h : Host) :
    (call operation >>= k).run h =
      (k (h.perform operation).1).run (h.perform operation).2 := rfl

/-- A program through a mapping does to the file what it does to a region, and nothing else. -/
theorem run_through {mapping : Nat} (p : Access α) : ∀ {h : Host},
    h.fileOf mapping < h.disk.files.size →
      (through mapping p).run h = ((p.run (h.shared mapping).region).1, h.withShared mapping
        { h.shared mapping with region := (p.run (h.shared mapping).region).2 }) := by
  -- What a write changes is changed again by the writes that follow.
  have hedit : ∀ (h : Host) (f : Region → Region) (q : Access α),
      h.fileOf mapping < h.disk.files.size →
        (∀ {h : Host}, h.fileOf mapping < h.disk.files.size →
          (through mapping q).run h = ((q.run (h.shared mapping).region).1, h.withShared mapping
            { h.shared mapping with region := (q.run (h.shared mapping).region).2 })) →
        (through mapping q).run (h.edit mapping f) =
          ((q.run (f (h.shared mapping).region)).1, h.withShared mapping
            { h.shared mapping with region := (q.run (f (h.shared mapping).region)).2 }) :=
      fun h f q hlt ih => by
    rw [Host.edit_eq, ih (h.lt_withShared hlt _), Host.shared_withShared hlt,
      Host.withShared_withShared]
  induction p with
  | done a => intro h _; rw [through, run, Access.run, h.withShared_shared]
  | fault f => intro h _; rw [through, run, Access.run, h.withShared_shared]
  | load field next ih =>
    intro h hlt
    rw [through, run, Host.perform_eq fun _ => rfl]
    exact ih _ hlt
  | fetch offset count next ih =>
    intro h hlt
    rw [through, run, Host.perform_eq fun _ => rfl]
    exact ih _ hlt
  | store field value next ih =>
    intro h hlt
    rw [through, run, Host.perform_eq fun _ => rfl]
    exact hedit h (·.write field value) _ hlt (ih ())
  | put offset bytes next ih =>
    intro h hlt
    rw [through, run, Host.perform_eq fun _ => rfl]
    exact hedit h (·.setSlice offset bytes) _ hlt (ih ())

theorem run_through_of_ok {mapping : Nat} {p : Access α} {a : α} {r : Region} {h : Host}
    (hlt : h.fileOf mapping < h.disk.files.size)
    (hp : p.run (h.shared mapping).region = (.ok a, r)) : (through mapping p).run h =
      (.ok a, h.withShared mapping { h.shared mapping with region := r }) := by
  rw [run_through p hlt, hp]

end Script

end MappedQueue
