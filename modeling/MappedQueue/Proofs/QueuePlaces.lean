import MappedQueue.Proofs.Places
import MappedQueue.Name

/-!
# The place of a queue

Once a queue file has been made, the path of the queue leads to one place for good, whatever
it is followed for: its directory stays, and what may change at the place is only whether the
file has its name there.
-/

namespace MappedQueue

namespace Disk

variable {d d' : Disk} {directory name : String} {old serial : Nat} {place : Nat × String} {path : Path}

theorem locate_congr (h : d'.nodes = d.nodes) (aim : Aim) (path : Path) :
    d'.locate aim path = d.locate aim path := by
  have hentry : ∀ directory step, d'.entry? directory step = d.entry? directory step := by
    intro directory step
    simp only [ entry?, h]
  have hparent : ∀ directory, d'.parent directory = d.parent directory := by
    intro directory
    simp only [Disk.parent, h]
  have hwalk : ∀ again steps directory, walk d' again aim directory steps =
      walk d again aim directory steps := by
    intro again steps
    induction steps with
    | nil => exact fun _ => rfl
    | cons step rest ih =>
      intro directory
      simp only [walk, ih, hentry, hparent, h]
  have hresolve : ∀ links directory steps, resolve d' aim links directory steps =
      resolve d aim links directory steps := by
    intro links
    induction links with
    | zero => exact fun _ _ => rfl
    | succ links ih =>
      intro directory steps
      rw [resolve, resolve, hwalk, funext fun directory => funext (ih directory)]
  rw [locate, locate, hresolve]

theorem find_congr (h : d'.nodes = d.nodes) (path : Path) : d'.find path = d.find path := by
  rw [find, find, locate_congr h, h]

/-- The directory of a queue is there. -/
def Houses (d : Disk) (directory name : String) : Prop :=
  Name.validate name = .ok () ∧
    ∃ path, Path.ofString directory = .ok path ∧ d.Has path.absolute path.steps.reverse

/-- The path of a queue leads to a file. -/
def Leads (d : Disk) (directory name : String) (file : Nat) : Prop :=
  ∃ path, Path.ofString (Name.storePath directory name) = .ok path ∧ d.find path = .ok (.file file)

/-- The path of a queue leads to one place, whatever it is followed for, and at this place there
is nothing or a file that is not an old one. -/
structure Stands (directory name : String) (old : Nat) (place : Nat × String) (d : Disk) : Prop where
  houses : d.Houses directory name
  leads : ∃ path, Path.ofString (Name.storePath directory name) = .ok path ∧
    ∀ aim, d.locate aim path = .ok ⟨place.1, some place.2, d.entry? place.1 place.2⟩
  files {node : Nat} (hentry : d.entry? place.1 place.2 = some node) :
    ∃ file, old ≤ file ∧ d.nodes[node]? = some (.file file)

theorem Has.of_isDirectory {absolute : Bool} {steps : List String} (h : d.Has absolute steps)
    (hkeeps : ∀ path, d.isDirectory path = true → d'.isDirectory path = true) :
    d'.Has absolute steps := h.imp_right (hkeeps _)

theorem Houses.of_isDirectory (h : d.Houses directory name)
    (hkeeps : ∀ path, d.isDirectory path = true → d'.isDirectory path = true) :
    d'.Houses directory name := by
  obtain ⟨hname, path, hpath, hhas⟩ := h
  exact ⟨hname, path, hpath, hhas.of_isDirectory hkeeps⟩

theorem Houses.congr (h : d.Houses directory name) (hnodes : d'.nodes = d.nodes) :
    d'.Houses directory name := by
  refine h.of_isDirectory fun path hdirectory => ?_
  rw [isDirectory, find_congr hnodes]
  exact hdirectory

theorem Leads.congr {file : Nat} (h : d.Leads directory name file) (hnodes : d'.nodes = d.nodes) :
    d'.Leads directory name file := by
  obtain ⟨path, hpath, hfind⟩ := h
  exact ⟨path, hpath, (find_congr hnodes path).trans hfind⟩

theorem Leads.unique {f g : Nat} (hf : d.Leads directory name f) (hg : d.Leads directory name g) :
    f = g := by
  obtain ⟨path, hpath, hfind⟩ := hf
  obtain ⟨path', hpath', hfind'⟩ := hg
  cases hpath.symm.trans hpath'
  cases hfind.symm.trans hfind'
  rfl

theorem Stands.congr (h : d.Stands directory name old place) (hnodes : d'.nodes = d.nodes) :
    d'.Stands directory name old place := by
  have hentry : d'.entry? place.1 place.2 = d.entry? place.1 place.2 := by
    simp only [ entry?, hnodes]
  obtain ⟨path, hpath, hleads⟩ := h.leads
  refine ⟨h.houses.congr hnodes, ⟨path, hpath, fun aim => ?_⟩, fun hnode => ?_⟩
  · rw [locate_congr hnodes, hentry]
    exact hleads aim
  · rw [hentry] at hnode
    rw [hnodes]
    exact h.files hnode

theorem Stands.bare (h : d.Stands directory name old place) : d.Bare place := by
  intro node hentry
  obtain ⟨file, -, hfile⟩ := h.files hentry
  exact ⟨file, hfile⟩

/-- What the path of a queue leads to is at its place. -/
theorem Stands.entry_of_leads {file : Nat} (h : d.Stands directory name old place)
    (hleads : d.Leads directory name file) :
    ∃ node, d.entry? place.1 place.2 = some node ∧ d.nodes[node]? = some (.file file) := by
  obtain ⟨path, hpath, hlocate⟩ := h.leads
  obtain ⟨path', hpath', hfind⟩ := hleads
  cases hpath.symm.trans hpath'
  obtain ⟨l, node, hl, hnode, hkind⟩ := find_eq_ok_iff.mp hfind
  cases (hlocate _).symm.trans hl
  exact ⟨node, hnode, hkind⟩

/-- Steps that led to the place go on leading there when only what is there has changed. -/
theorem stands_of_keeps {path : Path} (hf : d.Formed) (hk : KeepsBut place d d') (hb : d.Bare place)
    (hhouses : d.Houses directory name) (hpath : Path.ofString (Name.storePath directory name) = .ok path)
    (hl : d.locate { follow := false, makes := true } path = .ok ⟨place.1, some place.2,
      d.entry? place.1 place.2⟩)
    (hfiles : ∀ {node}, d'.entry? place.1 place.2 = some node →
      ∃ file, old ≤ file ∧ d'.nodes[node]? = some (.file file)) :
    d'.Stands directory name old place := by
  have hdirect : d'.Direct place := by
    refine Bare.direct fun node hentry => ?_
    obtain ⟨file, -, hfile⟩ := hfiles hentry
    exact ⟨file, hfile⟩
  refine ⟨hhouses.of_isDirectory fun _ => isDirectory_keeps hf hk hb hdirect, ⟨path, hpath, ?_⟩, hfiles⟩
  intro aim
  obtain ⟨hempty, hreaches⟩ := locate_eq_ok_iff.mp hl
  have hagain := hreaches.again aim hk hf hb hdirect (fun h => by cases h) (fun _ => rfl)
    (hf.isDirectory_startOf path) (Or.inl ⟨rfl, rfl⟩)
  rw [Landing.on, if_pos ⟨rfl, rfl⟩] at hagain
  exact locate_eq_ok_iff.mpr ⟨hempty, hagain⟩

/-- A new file has the place to which the path of the queue leads. -/
theorem stands_of_createFile {mode identity : Nat} (hf : d.Formed) (hhouses : d.Houses directory name)
    (hpath : Path.ofString (Name.storePath directory name) = .ok path)
    (hcreate : d.createFile path mode identity = .ok (serial, d')) (hold : old ≤ serial) :
    ∃ place, d'.Stands directory name old place ∧ d.Bare place ∧ KeepsBut place d d' ∧
      d'.Leads directory name serial := by
  obtain ⟨place, node, hl, habsent, hkeeps, hentry, hnode⟩ := createFile_places hf hcreate
  have hbare : d.Bare place := fun node hother => by
    rw [habsent] at hother
    cases hother
  refine ⟨place, ?_, hbare, hkeeps, path, hpath, find_of_createFile hf hcreate⟩
  refine stands_of_keeps hf hkeeps hbare hhouses hpath ?_ fun hother => ?_
  · rw [hl, habsent]
  · cases hentry.symm.trans hother
    exact ⟨serial, hold, hnode⟩

/-- The path of a queue whose name has been removed leads to the place still. -/
theorem Stands.of_unlink (h : d.Stands directory name old place) (hf : d.Formed)
    (hpath : Path.ofString (Name.storePath directory name) = .ok path)
    (hunlink : d.unlink path = .ok d') : d'.Stands directory name old place ∧
      KeepsBut place d d' ∧ d'.files = d.files := by
  obtain ⟨path', hpath', hleads⟩ := h.leads
  cases hpath.symm.trans hpath'
  obtain ⟨folder, step, node, hl, rfl⟩ := unlink_removes hunlink
  obtain ⟨folder', step'⟩ := place
  have hplace := Except.ok.inj ((hleads _).symm.trans hl)
  simp only [Landing.mk.injEq, Option.some.injEq] at hplace
  obtain ⟨rfl, rfl, -⟩ := hplace
  refine ⟨stands_of_keeps hf keeps_removeEntry h.bare h.houses hpath (hleads _) fun hentry => ?_,
    keeps_removeEntry, rfl⟩
  rw [entry?_removeEntry] at hentry
  cases hentry

/-- A directory that is there is not made again. -/
theorem Stands.makeDirectories_eq (h : d.Stands directory name old place)
    (hpath : Path.ofString directory = .ok path) : d.makeDirectories path = (.ok (), d) := by
  obtain ⟨-, path', hpath', hhas⟩ := h.houses
  cases hpath.symm.trans hpath'
  exact makeAll_of_has hhas

/-- A file that is there is not made again. -/
theorem Stands.createFile_eq {node : Nat} (h : d.Stands directory name old place)
    (hpath : Path.ofString (Name.storePath directory name) = .ok path)
    (hentry : d.entry? place.1 place.2 = some node) (mode identity : Nat) :
    d.createFile path mode identity = .error (.code Errno.alreadyExists) := by
  obtain ⟨path', hpath', hleads⟩ := h.leads
  cases hpath.symm.trans hpath'
  unfold createFile
  rw [hleads, hentry]
  rfl

/-- What was there before was a directory before. -/
theorem KeepsBut.isDirectory_before {node : Nat} (hk : KeepsBut place d d') (hlt : node < d.nodes.size)
    (h : d'.IsDirectory node) : d.IsDirectory node := by
  obtain ⟨parent, entries, hnode⟩ := h
  have hkind := Array.getElem?_eq_getElem hlt
  cases hbefore : d.nodes[node] with
  | directory parent' entries' => exact ⟨parent', entries', hkind.trans (congrArg some hbefore)⟩
  | file serial => cases (hk.file (hkind.trans (congrArg some hbefore))).symm.trans hnode
  | link target => cases (hk.link (hkind.trans (congrArg some hbefore))).symm.trans hnode

theorem KeepsBut.link_before {node : Nat} {target : Path} (hk : KeepsBut place d d')
    (hlt : node < d.nodes.size) (h : d'.nodes[node]? = some (.link target)) :
    d.nodes[node]? = some (.link target) := by
  have hkind := Array.getElem?_eq_getElem hlt
  cases hbefore : d.nodes[node] with
  | directory parent entries =>
    obtain ⟨entries', hnode, -⟩ := hk.directory (hkind.trans (congrArg some hbefore))
    cases hnode.symm.trans h
  | file serial => cases (hk.file (hkind.trans (congrArg some hbefore))).symm.trans h
  | link target' =>
    rw [hbefore] at hkind
    cases (hk.link hkind).symm.trans h
    exact hkind

/-- Steps that lead to where nothing is led nowhere, or to nothing, when there were fewer
directories. -/
theorem resolve_before {aim aim' : Aim} {links folder : Nat} {steps : List String} {l : Landing}
    (hk : ∀ place, KeepsBut place d d') (hf : d.Formed) (hfollow : aim'.follow = true)
    (hmakes : aim'.makes = false) (h : Reaches d' aim links folder steps l) : d.IsDirectory folder →
      l.node = none → resolve d aim' (links + 1) folder steps = .error (.code Errno.noEntry) ∨
        ∃ l', resolve d aim' (links + 1) folder steps = .ok l' ∧ l'.node = none := by
  have hentry : ∀ {folder node : Nat} {step : String}, d.entry? folder step = some node →
      d'.entry? folder step = some node := fun {folder node step} h =>
    (hk (folder + 1, step)).entry_eq (by simp) h
  have hplain : ∀ rest, (aim'.makes && slashAfter rest) = false := fun rest => by
    rw [hmakes, Bool.false_and]
  unfold resolve
  induction h with
  | here =>
    intro _ hnode
    cases hnode
  | stay hstep _ ih =>
    intro hfolder hnode
    rw [walk, if_pos (by simpa using hstep)]
    exact ih hfolder hnode
  | @up links folder rest l _ ih =>
    intro hfolder hnode
    rw [walk, if_neg (by decide), if_pos (by decide)]
    rw [(hk (0, "")).parent_eq hfolder] at ih
    exact ih (hf.isDirectory_parent hfolder) hnode
  | @last links folder step hstep _ =>
    intro hfolder hnode
    cases hbefore : d.entry? folder step with
    | none =>
      rw [walk_missing hstep (hplain _) hbefore]
      exact Or.inr ⟨_, rfl, rfl⟩
    | some node => cases (hentry hbefore).symm.trans hnode
  | @enter links folder node step rest l hstep _ hmore hfound hdirectory _ ih =>
    intro hfolder hnode
    cases hbefore : d.entry? folder step with
    | none =>
      rw [walk_missing hstep (hplain _) hbefore, if_neg (by simpa using hmore)]
      exact Or.inl rfl
    | some node' =>
      cases (hentry hbefore).symm.trans hfound
      have hdirectory' := (hk (0, "")).isDirectory_before (hf.lt_of_entry hbefore) hdirectory
      rw [walk_enter hstep (hplain _) hmore hbefore hdirectory']
      exact ih hdirectory' hnode
  | @link links folder node step rest target l hstep _ _ hfound htarget _ ih =>
    intro hfolder hnode
    cases hbefore : d.entry? folder step with
    | none =>
      rw [walk_missing hstep (hplain _) hbefore]
      split
      · exact Or.inr ⟨_, rfl, rfl⟩
      · exact Or.inl rfl
    | some node' =>
      cases (hentry hbefore).symm.trans hfound
      have hkind := (hk (0, "")).link_before (hf.lt_of_entry hbefore) htarget
      rw [walk_link hstep (hplain _) (fun _ => hfollow) hbefore hkind]
      exact ih (hf.isDirectory_linkStart hfolder target) hnode

/-- Where a file can be made there was none before. -/
theorem openFile_before {mode identity : Nat} (hw : Widens d d') (hf : d.Formed)
    {d'' : Disk} (hcreate : d'.createFile path mode identity = .ok (serial, d'')) :
    d.openFile path = .error (.code Errno.noEntry) := by
  obtain ⟨folder, step, hl, -, -⟩ := createFile_adds hcreate
  obtain ⟨hempty, hreaches⟩ := locate_eq_ok_iff.mp hl
  have hfind : d.find path = .error (.code Errno.noEntry) := by
    unfold find locate
    rw [hempty, if_neg (by decide)]
    have hbefore := resolve_before (hw.keeps) hf (show ({ follow := true } : Aim).follow = true from rfl)
      rfl hreaches (hf.isDirectory_startOf path) rfl
    rcases hbefore with herror | ⟨l', hok, hnone⟩
    · rw [startOf] at herror
      rw [herror]
      rfl
    · rw [startOf] at hok
      rw [hok]
      simp only [bind, Except.bind, hnone, Option.bind_none]
  unfold openFile
  rw [hfind]
  rfl

end Disk

end MappedQueue
