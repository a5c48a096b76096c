import MappedQueue.Proofs.QueuePlaces

/-!
# What is left of an attempt

A disk is spared if everything on it stays as it was, and beside it there are only new
directories, with nothing but new directories in them. Making directories spares the disk,
and so does making a file, doing with it whatever one likes, and removing its name.

That a file could be made shows that there was nothing of its name before, not even a link
to nowhere.
-/

namespace MappedQueue.Disk

variable {d d' d'' : Disk} {path : Path} {file : Nat}

/-- Everything of the one disk is on the other as it was, and all that has been added is
directories. A file without a name may be among the files of the other. -/
structure Spares (d d' : Disk) : Prop where
  formed : d'.Formed
  files_eq : ∀ serial < d.files.size, d'.files[serial]? = d.files[serial]?
  file {node serial : Nat} (h : d.nodes[node]? = some (.file serial)) :
    d'.nodes[node]? = some (.file serial)
  link {node : Nat} {target : Path} (h : d.nodes[node]? = some (.link target)) :
    d'.nodes[node]? = some (.link target)
  directory {node parent : Nat} {entries : List (String × Nat)}
    (h : d.nodes[node]? = some (.directory parent entries)) :
      ∃ added, d'.nodes[node]? = some (.directory parent (added ++ entries)) ∧
        ∀ entry ∈ added, entries.lookup entry.1 = none ∧ d.nodes.size ≤ entry.2 ∧
          d'.IsDirectory entry.2
  fresh {node parent : Nat} {entries : List (String × Nat)} (hnew : d.nodes.size ≤ node)
    (h : d'.nodes[node]? = some (.directory parent entries)) :
      ∀ entry ∈ entries, d.nodes.size ≤ entry.2 ∧ d'.IsDirectory entry.2

namespace Spares

theorem refl (hf : d.Formed) : Spares d d where
  formed := hf
  files_eq _ _ := rfl
  file := id
  link := id
  directory h := ⟨[], h, nofun⟩
  fresh hnew h := absurd (Array.getElem?_eq_some_iff.mp h).1 (Nat.not_lt_of_le hnew)

theorem isDirectory {node : Nat} (hs : Spares d d') (h : d.IsDirectory node) :
    d'.IsDirectory node := by
  obtain ⟨parent, entries, hnode⟩ := h
  obtain ⟨added, hnode', -⟩ := hs.directory hnode
  exact ⟨parent, _, hnode'⟩

theorem size_le (hs : Spares d d') : d.nodes.size ≤ d'.nodes.size := by
  refine Nat.le_of_not_lt fun hlt => ?_
  have hgone : d'.nodes[d'.nodes.size]? = none := Array.getElem?_eq_none (Nat.le_refl _)
  have hkind := Array.getElem?_eq_getElem hlt
  cases hnode : d.nodes[d'.nodes.size] with
  | directory parent entries =>
    obtain ⟨added, hnode', -⟩ := hs.directory (hkind.trans (congrArg some hnode))
    cases hgone.symm.trans hnode'
  | file serial => cases hgone.symm.trans (hs.file (hkind.trans (congrArg some hnode)))
  | link target => cases hgone.symm.trans (hs.link (hkind.trans (congrArg some hnode)))

/-- What was there before and is a directory was one before. -/
theorem directory_before {node parent : Nat} {entries : List (String × Nat)} (hs : Spares d d')
    (hlt : node < d.nodes.size) (h : d'.nodes[node]? = some (.directory parent entries)) :
    ∃ added before, d.nodes[node]? = some (.directory parent before) ∧ entries = added ++ before ∧
      ∀ entry ∈ added, d.nodes.size ≤ entry.2 ∧ d'.IsDirectory entry.2 := by
  have hkind := Array.getElem?_eq_getElem hlt
  cases hnode : d.nodes[node] with
  | directory parent' before =>
    obtain ⟨added, hnode', hadded⟩ := hs.directory (hkind.trans (congrArg some hnode))
    cases hnode'.symm.trans h
    exact ⟨added, before, hkind.trans (congrArg some hnode), rfl, fun e he => (hadded e he).2⟩
  | file serial => cases (hs.file (hkind.trans (congrArg some hnode))).symm.trans h
  | link target => cases (hs.link (hkind.trans (congrArg some hnode))).symm.trans h

theorem files_le (hs : Spares d d') : d.files.size ≤ d'.files.size := by
  refine Nat.le_of_not_lt fun hlt => ?_
  have hgone := hs.files_eq d'.files.size hlt
  rw [Array.getElem?_eq_none (Nat.le_refl _), Array.getElem?_eq_getElem hlt] at hgone
  cases hgone

theorem trans (hs : Spares d d') (hs' : Spares d' d'') : Spares d d'' where
  formed := hs'.formed
  files_eq serial hlt :=
    (hs'.files_eq serial (Nat.lt_of_lt_of_le hlt hs.files_le)).trans (hs.files_eq serial hlt)
  file h := hs'.file (hs.file h)
  link h := hs'.link (hs.link h)
  directory h := by
    obtain ⟨added, h', hadded⟩ := hs.directory h
    obtain ⟨added', h'', hadded'⟩ := hs'.directory h'
    refine ⟨added' ++ added, by rw [List.append_assoc]; exact h'', fun entry hentry => ?_⟩
    rcases List.mem_append.mp hentry with hentry | hentry
    · obtain ⟨hnone, hnew, hdirectory⟩ := hadded' entry hentry
      rw [List.lookup_append, Option.or_eq_none_iff] at hnone
      exact ⟨hnone.2, Nat.le_trans hs.size_le hnew, hdirectory⟩
    · obtain ⟨hnone, hnew, hdirectory⟩ := hadded entry hentry
      exact ⟨hnone, hnew, hs'.isDirectory hdirectory⟩
  fresh {node parent entries} hnew h := by
    intro entry hentry
    rcases Nat.lt_or_ge node d'.nodes.size with hlt | hge
    · obtain ⟨added, before, h', rfl, hadded⟩ := hs'.directory_before hlt h
      rcases List.mem_append.mp hentry with hentry | hentry
      · obtain ⟨hnew', hdirectory⟩ := hadded entry hentry
        exact ⟨Nat.le_trans hs.size_le hnew', hdirectory⟩
      · obtain ⟨hnew', hdirectory⟩ := hs.fresh hnew h' entry hentry
        exact ⟨hnew', hs'.isDirectory hdirectory⟩
    · obtain ⟨hnew', hdirectory⟩ := hs'.fresh hge h entry hentry
      exact ⟨Nat.le_trans hs.size_le hnew', hdirectory⟩

theorem keeps (hs : Spares d d') (place : Nat × String) : KeepsBut place d d' where
  file := hs.file
  link := hs.link
  directory h := by
    obtain ⟨added, h', hadded⟩ := hs.directory h
    refine ⟨_, h', fun step node _ hlookup => ?_⟩
    have hnone : added.lookup step = none := by
      rw [List.lookup_eq_none_iff]
      intro entry hentry
      refine bne_iff_ne.mpr ?_
      rintro rfl
      rw [(hadded entry hentry).1] at hlookup
      cases hlookup
    rw [List.lookup_append, hnone]
    exact hlookup

/-- The files that have names are the same. -/
theorem mem_named_iff {serial : Nat} (hs : Spares d d') (hf : d.Formed) :
    serial ∈ d'.named ↔ serial ∈ d.named := by
  have hnew : ∀ {node}, d'.nodes[node]? = some (.file serial) → ¬ d'.IsDirectory node := by
    rintro node hfile ⟨parent, entries, hdirectory⟩
    cases hfile.symm.trans hdirectory
  simp only [mem_named]
  constructor
  · rintro ⟨directory, parent, entries, name, node, hdirectory, hentry, hfile⟩
    rcases Nat.lt_or_ge directory d.nodes.size with hlt | hge
    · obtain ⟨added, before, hbefore, rfl, hadded⟩ := hs.directory_before hlt hdirectory
      rcases List.mem_append.mp hentry with hentry | hentry
      · exact absurd (hadded _ hentry).2 (hnew hfile)
      · refine ⟨directory, parent, before, name, node, hbefore, hentry, ?_⟩
        have hlt : node < d.nodes.size := hf.entry_lt hbefore _ hentry
        have hkind := Array.getElem?_eq_getElem hlt
        cases hnode : d.nodes[node] with
        | directory parent' entries' =>
          exact absurd (hs.isDirectory ⟨_, _, hkind.trans (congrArg some hnode)⟩) (hnew hfile)
        | file other =>
          cases hfile.symm.trans (hs.file (hkind.trans (congrArg some hnode)))
          exact hkind.trans (congrArg some hnode)
        | link target => cases hfile.symm.trans (hs.link (hkind.trans (congrArg some hnode)))
    · exact absurd (hs.fresh hge hdirectory _ hentry).2 (hnew hfile)
  · rintro ⟨directory, parent, entries, name, node, hdirectory, hentry, hfile⟩
    obtain ⟨added, hdirectory', -⟩ := hs.directory hdirectory
    exact ⟨directory, parent, _, name, node, hdirectory', List.mem_append_right _ hentry, hs.file hfile⟩

end Spares

theorem spares_makeDirectory (hf : d.Formed) (h : d.makeDirectory path = .ok d') : Spares d d' := by
  obtain ⟨hwidens, -⟩ := makeDirectory_widens hf h
  obtain ⟨directory, name, hl, rfl⟩ := makeDirectory_adds h
  obtain ⟨hdirectory, habsent⟩ := locate_lands hf hl
  replace habsent : d.entry? directory name = none := habsent.symm
  have hnew : (d.addEntry directory name (.directory directory [])).IsDirectory d.nodes.size :=
    ⟨directory, [], by rw [getElem?_addEntry _ _ hdirectory, if_pos rfl]⟩
  have hkeeps := hwidens.keeps (directory, name)
  refine ⟨hwidens.formed, fun _ _ => rfl, hkeeps.file, hkeeps.link, fun {node _ entries} hold => ?_,
    fun {node _ entries} hge hkind => ?_⟩
  · have hnode := getElem?_addEntry name (.directory directory []) hdirectory node
    have hlt := (Array.getElem?_eq_some_iff.mp hold).1
    rw [if_neg (Nat.ne_of_lt hlt), hold] at hnode
    by_cases heq : node = directory
    · subst heq
      rw [if_pos rfl] at hnode
      refine ⟨[(name, d.nodes.size)], hnode, fun entry hentry => ?_⟩
      cases List.mem_singleton.mp hentry
      exact ⟨(entry?_eq hold).symm.trans habsent, Nat.le_refl _, hnew⟩
    · rw [if_neg heq] at hnode
      exact ⟨[], hnode, nofun⟩
  · rcases addEntry_cases hdirectory hkind with ⟨-, heq⟩ | hold | ⟨_, _, hold, -⟩
    · cases heq
      exact nofun
    · exact absurd (Array.getElem?_eq_some_iff.mp hold).1 (Nat.not_lt_of_le hge)
    · exact absurd (Array.getElem?_eq_some_iff.mp hold).1 (Nat.not_lt_of_le hge)

theorem spares_makeAll (hf : d.Formed) (absolute : Bool) (steps : List String) :
    Spares d (d.makeAll absolute steps).2 := by
  fun_induction d.makeAll absolute steps with
  | case1 => exact .refl hf
  | case2 step before path d' hmake => exact spares_makeDirectory hf hmake
  | case3 => exact .refl hf
  | case4 step before path error hmake hmissing error' d' hall ih =>
    rw [hall] at ih
    exact ih
  | case5 step before path error hmake hmissing d' hall d'' hmake' ih =>
    rw [hall] at ih
    exact ih.trans (spares_makeDirectory ih.formed hmake')
  | case6 step before path error hmake hmissing d' hall error' hmake' ih =>
    rw [hall] at ih
    exact ih

/-- A file has been made for a path. What it holds has changed since perhaps, and nothing else. -/
structure Drafts (path : Path) (file : Nat) (d d' : Disk) : Prop where
  created : ∃ mode identity d₁, d.createFile path mode identity = .ok (file, d₁) ∧
    d'.nodes = d₁.nodes
  files_eq : ∀ serial < d.files.size, d'.files[serial]? = d.files[serial]?

theorem drafts_createFile {mode identity : Nat} (h : d.createFile path mode identity = .ok (file, d')) :
    Drafts path file d d' := by
  refine ⟨⟨mode, identity, d', h, rfl⟩, fun serial hlt => ?_⟩
  rw [(createFile_ok h).2, Array.getElem?_push_lt hlt, Array.getElem?_eq_getElem hlt]

namespace Drafts

theorem file_eq (hd : Drafts path file d d') : file = d.files.size := by
  obtain ⟨mode, identity, d₁, hcreate, -⟩ := hd.created
  exact (createFile_ok hcreate).1

theorem congr (hd : Drafts path file d d') (hnodes : d''.nodes = d'.nodes)
    (hfiles : ∀ serial < d.files.size, d''.files[serial]? = d'.files[serial]?) :
    Drafts path file d d'' := by
  obtain ⟨mode, identity, d₁, hcreate, hnodes'⟩ := hd.created
  exact ⟨⟨mode, identity, d₁, hcreate, hnodes.trans hnodes'⟩, fun serial hlt =>
    (hfiles serial hlt).trans (hd.files_eq serial hlt)⟩

theorem modify (hd : Drafts path file d d') (f : File → File) :
    Drafts path file d { d' with files := d'.files.modify file f } := by
  refine hd.congr rfl fun serial hlt => ?_
  rw [← hd.file_eq] at hlt
  simp only [Array.getElem?_modify, if_neg (Nat.ne_of_gt hlt)]

theorem setShared (hd : Drafts path file d d') (q : Shared) : Drafts path file d (d'.setShared file q) :=
  hd.modify _

theorem setLength (hd : Drafts path file d d') (length : Nat) :
    Drafts path file d (d'.setLength file length) := by
  rw [setLength_eq]
  exact (hd.setShared _).modify _

/-- The path leads to the file. -/
theorem find (hd : Drafts path file d d') (hf : d.Formed) : d'.find path = .ok (.file file) := by
  obtain ⟨mode, identity, d₁, hcreate, hnodes⟩ := hd.created
  rw [find_congr hnodes]
  exact find_of_createFile hf hcreate

theorem keeps (hd : Drafts path file d d') (hf : d.Formed) : ∃ place, KeepsBut place d d' := by
  obtain ⟨mode, identity, d₁, hcreate, hnodes⟩ := hd.created
  obtain ⟨place, node, -, -, hkeeps, -, -⟩ := createFile_places hf hcreate
  exact ⟨place, fun h => by rw [hnodes]; exact hkeeps.file h, fun h => by rw [hnodes]; exact hkeeps.link h,
    fun h => by rw [hnodes]; exact hkeeps.directory h⟩

end Drafts

/-- Where nothing is when links are not followed, a file can be told to be made. -/
theorem locate_unmade {l : Landing} (hf : d.Formed)
    (h : d.locate { follow := false, makes := true } path = .ok l) (hnone : l.node = none) :
    d.locate { follow := false } path = .ok l := by
  obtain ⟨hempty, hreaches⟩ := locate_eq_ok_iff.mp h
  obtain ⟨-, hlands⟩ := locate_lands hf h
  obtain ⟨directory, name, node⟩ := l
  cases hnone
  cases name with
  | none => cases hlands
  | some name =>
    replace hlands : d.entry? directory name = none := hlands.symm
    have hbare : d.Bare (directory, name) := fun node hother => by
      rw [hlands] at hother
      cases hother
    have hagain := hreaches.again { follow := false } (KeepsBut.refl d) hf hbare hbare.direct
      (fun h => by cases h) (fun h => by cases h) (hf.isDirectory_startOf path) (Or.inl ⟨rfl, rfl⟩)
    rw [Landing.on, if_pos ⟨rfl, rfl⟩, hlands] at hagain
    exact locate_eq_ok_iff.mpr ⟨hempty, hagain⟩

/-- To take back a new entry restores the directory, though what the entry led to stays. -/
theorem getElem?_removeEntry_of_added {directory : Nat} {name : String} {kind : Node}
    (hdirectory : d.IsDirectory directory) (habsent : d.entry? directory name = none)
    (hnodes : d'.nodes = (d.addEntry directory name kind).nodes) (node : Nat) :
    (d'.removeEntry directory name).nodes[node]? =
      if node = d.nodes.size then some kind else d.nodes[node]? := by
  rw [getElem?_removeEntry, hnodes, getElem?_addEntry _ _ hdirectory]
  have hne : directory ≠ d.nodes.size := Nat.ne_of_lt hdirectory.lt
  by_cases hat : node = directory
  · subst hat
    rw [if_pos rfl, if_pos rfl, if_neg hne, if_neg hne]
    obtain ⟨parent, entries, hkind⟩ := hdirectory
    rw [entry?_eq hkind, List.lookup_eq_none_iff] at habsent
    rw [hkind]
    simp only [Option.map_some, List.filter_cons, bne_self_eq_false, Bool.false_eq_true, if_false]
    rw [List.filter_eq_self.mpr fun entry hentry => by
      have := habsent entry hentry
      simpa [bne_comm] using this]
  · simp only [if_neg hat]

/-- The name of a new file can be removed, which leaves the disk spared. -/
theorem Drafts.unlink (hd : Drafts path file d d') (hf : d.Formed) (hf' : d'.Formed) :
    ∃ d'', d'.unlink path = .ok d'' ∧ Spares d d'' := by
  obtain ⟨mode, identity, d₁, hcreate, hnodes⟩ := hd.created
  obtain ⟨place, node, hl, habsent, hkeeps, hentry, hnode⟩ := createFile_places hf hcreate
  obtain ⟨directory, name, hl', -, rfl⟩ := createFile_adds hcreate
  cases hl.symm.trans hl'
  obtain ⟨hdirectory, -⟩ := locate_lands hf hl
  have hbare : d.Bare place := fun node hother => by
    rw [habsent] at hother
    cases hother
  have hbare' : Bare _ place := fun node' hother => by
    cases hentry.symm.trans hother
    exact ⟨file, hnode⟩
  obtain ⟨hempty, hreaches⟩ := locate_eq_ok_iff.mp hl
  have hagain := hreaches.again { follow := false } hkeeps hf hbare hbare'.direct
    (fun h => by cases h) (fun h => by cases h) (hf.isDirectory_startOf path) (Or.inl ⟨rfl, rfl⟩)
  rw [Landing.on, if_pos ⟨rfl, rfl⟩, hentry] at hagain
  have hlocate := locate_congr hnodes { follow := false } path
  rw [locate_eq_ok_iff.mpr ⟨hempty, hagain⟩] at hlocate
  have hunlink : d'.unlink path = .ok (d'.removeEntry place.1 place.2) := by
    rw [Disk.unlink, hlocate]
    simp only [bind, Except.bind]
    rw [hnodes, hnode]
    rfl
  refine ⟨_, hunlink, ?_⟩
  have hformed := (unlink_formed hf' hunlink).1
  have hback := getElem?_removeEntry_of_added hdirectory habsent hnodes
  have hold : ∀ {node kind}, d.nodes[node]? = some kind →
      (d'.removeEntry place.1 place.2).nodes[node]? = some kind := fun {node kind} h => by
    rw [hback, if_neg (Nat.ne_of_lt (Array.getElem?_eq_some_iff.mp h).1)]
    exact h
  refine ⟨hformed, hd.files_eq, hold, hold, fun h => ⟨[], hold h, by simp⟩,
    fun {node _ _} hge h => ?_⟩
  rw [hback] at h
  split at h
  · cases h
  · exact absurd (Array.getElem?_eq_some_iff.mp h).1 (Nat.not_lt_of_le hge)

/-- Where something is, it is on a disk as well that has more directories. -/
theorem Reaches.spared {aim : Aim} {links directory node : Nat} {steps : List String} {l : Landing}
    (hs : Spares d d') (hf : d.Formed) (h : Reaches d aim links directory steps l) :
    d.IsDirectory directory → l.node = some node → Reaches d' aim links directory steps l := by
  have hentry : ∀ {folder node : Nat} {step : String}, d.entry? folder step = some node →
      d'.entry? folder step = some node := fun {folder node step} h =>
    (hs.keeps (folder + 1, step)).entry_eq (by simp) h
  induction h with
  | here => exact fun _ _ => .here
  | stay hstep _ ih => exact fun hdirectory hnode => .stay hstep (ih hdirectory hnode)
  | up _ ih =>
    intro hdirectory hnode
    refine .up ?_
    rw [(hs.keeps (0, "")).parent_eq hdirectory]
    exact ih (hf.isDirectory_parent hdirectory) hnode
  | @last links directory step hname hlast =>
    intro _ hnode
    replace hnode : d.entry? directory step = some node := hnode
    rw [show d.entry? directory step = d'.entry? directory step from
      hnode.trans (hentry hnode).symm]
    refine .last hname fun other target hother hlink => ?_
    rw [hentry hnode] at hother
    cases hother
    exact hlast node target hnode ((hs.keeps (0, "")).link_before (hf.lt_of_entry hnode) hlink)
  | enter hname hplain hmore hfound hdirectory' _ ih =>
    intro _ hnode
    exact .enter hname hplain hmore (hentry hfound) (hs.isDirectory hdirectory') (ih hdirectory' hnode)
  | link hname hplain hfollow hfound hkind _ ih =>
    intro hdirectory hnode
    exact .link hname hplain hfollow (hentry hfound) (hs.link hkind)
      (ih (hf.isDirectory_linkStart hdirectory _) hnode)

/-- Nothing had the name of a file that could be made, not even a link to nowhere. -/
theorem Drafts.nothing_before {d₀ : Disk} {l : Landing} (hd : Drafts path file d d') (hs : Spares d₀ d)
    (hf : d₀.Formed) (hl : d₀.locate { follow := false } path = .ok l) : l.node = none := by
  obtain ⟨mode, identity, d₁, hcreate, -⟩ := hd.created
  obtain ⟨directory, name, hmakes, -, -⟩ := createFile_adds hcreate
  have hfree := locate_unmade hs.formed hmakes rfl
  cases hnode : l.node with
  | none => rfl
  | some node =>
    obtain ⟨hempty, hreaches⟩ := locate_eq_ok_iff.mp hl
    have hsome := locate_eq_ok_iff.mpr
      ⟨hempty, hreaches.spared hs hf (hf.isDirectory_startOf path) hnode⟩
    cases hsome.symm.trans hfree
    cases hnode

end MappedQueue.Disk
