import MappedQueue.Proofs.Directories

/-!
# What paths are used for

Making directories only adds to the tree, and directories that are there already stay as
they are. A file that is opened has a name; making a file adds a name that was free, and
removing one takes a single name away.
-/

namespace MappedQueue.Disk

variable {d d' : Disk} {place : Nat × String} {path : Path} {serial : Nat}

theorem find_eq_ok_iff {kind : Node} :
    d.find path = .ok kind ↔ ∃ l node, d.locate { follow := true } path = .ok l ∧
      l.node = some node ∧ d.nodes[node]? = some kind := by
  unfold find
  cases hl : d.locate { follow := true } path with
  | error error =>
    constructor
    · intro h
      cases h
    · rintro ⟨l, node, h, -⟩
      cases h
  | ok l =>
    simp only [bind, Except.bind]
    cases hnode : l.node with
    | none =>
      constructor
      · intro h
        cases h
      · rintro ⟨_, node, h, hsome, -⟩
        cases h
        rw [hnode] at hsome
        cases hsome
    | some node =>
      simp only [Option.bind_some]
      constructor
      · intro h
        cases hkind : d.nodes[node]? with
        | none =>
          rw [hkind] at h
          cases h
        | some other =>
          rw [hkind] at h
          cases h
          exact ⟨l, node, rfl, hnode, hkind⟩
      · rintro ⟨_, other, h, hsome, hkind⟩
        cases h
        rw [hnode] at hsome
        cases hsome
        rw [hkind]
        rfl

theorem isDirectory_iff : d.isDirectory path = true ↔
    ∃ l node, d.locate { follow := true } path = .ok l ∧ l.node = some node ∧ d.IsDirectory node := by
  unfold isDirectory
  constructor
  · intro h
    split at h
    · rename_i parent entries hfind
      obtain ⟨l, node, hl, hnode, hkind⟩ := find_eq_ok_iff.mp hfind
      exact ⟨l, node, hl, hnode, parent, entries, hkind⟩
    · cases h
  · rintro ⟨l, node, hl, hnode, parent, entries, hkind⟩
    rw [find_eq_ok_iff.mpr ⟨l, node, hl, hnode, hkind⟩]

/-- A path that leads to a directory goes on leading to it. -/
theorem isDirectory_keeps (hf : d.Formed) (hk : KeepsBut place d d') (hb : d.Bare place)
    (hd : d'.Direct place) (h : d.isDirectory path = true) : d'.isDirectory path = true := by
  obtain ⟨l, node, hl, hnode, hdirectory⟩ := isDirectory_iff.mp h
  obtain ⟨hempty, hreaches⟩ := locate_eq_ok_iff.mp hl
  have hstart := hf.isDirectory_startOf path
  have hagain := hreaches.again { follow := true } hk hf hb hd id id hstart
    (Or.inr ⟨node, hnode, hdirectory⟩)
  have haway : ¬ Landing.At place l := by
    rintro ⟨hplace, hname⟩
    have hentry := (hreaches.lands hf hstart).2
    rw [hname, hnode, hplace] at hentry
    obtain ⟨serial, hfile⟩ := hb node hentry.symm
    obtain ⟨parent, entries, hkind⟩ := hdirectory
    rw [hfile] at hkind
    cases hkind
  rw [Landing.on, if_neg haway] at hagain
  exact isDirectory_iff.mpr ⟨l, node, locate_eq_ok_iff.mpr ⟨hempty, hagain⟩, hnode,
    hk.isDirectory hdirectory⟩

/-- What steps lead to when links are followed is there also when the last one is not. -/
theorem Reaches.unfollowed {links directory node : Nat} {steps : List String} {l : Landing}
    (h : Reaches d { follow := true } links directory steps l) (hnode : l.node = some node) :
    ∃ l' node', Reaches d { follow := false } links directory steps l' ∧ l'.node = some node' := by
  induction h with
  | here => exact ⟨_, _, .here, rfl⟩
  | stay hstep _ ih =>
    obtain ⟨l', node', hreaches, hnode'⟩ := ih hnode
    exact ⟨l', node', .stay hstep hreaches, hnode'⟩
  | up _ ih =>
    obtain ⟨l', node', hreaches, hnode'⟩ := ih hnode
    exact ⟨l', node', .up hreaches, hnode'⟩
  | last hname hlink => exact ⟨_, node, .last hname (fun _ _ _ _ => rfl), hnode⟩
  | enter hname hplain hmore hentry hdirectory _ ih =>
    obtain ⟨l', node', hreaches, hnode'⟩ := ih hnode
    exact ⟨l', node', .enter hname hplain hmore hentry hdirectory hreaches, hnode'⟩
  | @link _ _ _ step rest target _ hname hplain hfollow hentry hkind _ ih =>
    by_cases hrest : rest = []
    · subst hrest
      exact ⟨_, _, .last hname (fun _ _ _ _ => rfl), hentry⟩
    · obtain ⟨l', node', hreaches, hnode'⟩ := ih hnode
      exact ⟨l', node', .link hname hplain (fun h => absurd h hrest) hentry hkind hreaches, hnode'⟩

/-- The other disk has the same files, under the same names, and perhaps more directories. -/
structure Widens (d d' : Disk) : Prop where
  files_eq : d'.files = d.files
  formed : d'.Formed
  keeps (place : Nat × String) : KeepsBut place d d'
  named : ∀ serial ∈ d'.named, serial ∈ d.named

theorem Widens.refl (hf : d.Formed) : Widens d d := ⟨rfl, hf, fun _ => .refl d, fun _ => id⟩

theorem Widens.trans {d'' : Disk} (h : Widens d d') (h' : Widens d' d'') : Widens d d'' where
  files_eq := h'.files_eq.trans h.files_eq
  formed := h'.formed
  keeps place := (h.keeps place).trans (h'.keeps place)
  named serial hserial := h.named serial (h'.named serial hserial)

theorem Widens.isDirectory (h : Widens d d') (hf : d.Formed) (hd : d.isDirectory path = true) :
    d'.isDirectory path = true := by
  -- Everything is kept, so any place will do at which there is nothing on either disk.
  have hnone : ∀ {e : Disk} {n : Nat}, e.nodes.size ≤ n → e.entry? n "" = none := fun hle => by
    simp only [ entry?, Array.getElem?_eq_none hle]
  generalize hn : max d.nodes.size d'.nodes.size = n
  refine isDirectory_keeps hf (h.keeps (n, "")) (fun node hentry => ?_) (fun node _ hentry => ?_) hd
  · rw [hnone (by omega)] at hentry
    cases hentry
  · rw [hnone (by omega)] at hentry
    cases hentry

/-- A landing where nothing is, is in a directory that has no such name. -/
theorem locate_lands {aim : Aim} {l : Landing} (hf : d.Formed) (h : d.locate aim path = .ok l) :
    d.IsDirectory l.directory ∧ l.node = match l.name with
      | none => some l.directory
      | some name => d.entry? l.directory name :=
  (locate_eq_ok_iff.mp h).2.lands hf (hf.isDirectory_startOf path)

theorem makeDirectory_widens (hf : d.Formed) (h : d.makeDirectory path = .ok d') :
    Widens d d' ∧ d'.isDirectory { path with closed := false } = true := by
  obtain ⟨directory, name, hl, rfl⟩ := makeDirectory_adds h
  obtain ⟨hdirectory, habsent⟩ := locate_lands hf hl
  replace habsent : d.entry? directory name = none := habsent.symm
  have hentry := entry?_addEntry name (.directory directory []) hdirectory
  have hnew : (d.addEntry directory name (.directory directory [])).nodes[d.nodes.size]? =
      some (.directory directory []) := by
    rw [getElem?_addEntry _ _ hdirectory, if_pos rfl]
  refine ⟨⟨rfl, hf.addEntry hdirectory habsent (Or.inl rfl),
    fun place => keeps_addEntry place hdirectory habsent, fun serial hserial => ?_⟩, ?_⟩
  · refine (mem_named_of_addEntry hdirectory (fun _ _ heq => ?_) hserial).resolve_right ?_
    · cases heq
      rfl
    · intro heq
      cases heq
  · -- The path leads to the place of the new directory whether or not links are followed.
    obtain ⟨hempty, hreaches⟩ := locate_eq_ok_iff.mp hl
    have hagain := hreaches.again { follow := true } (keeps_addEntry (directory, name) hdirectory habsent) hf
      (fun node hnode => by rw [habsent] at hnode; cases hnode)
      (fun node target hnode hlink => by
        rw [hentry] at hnode
        cases hnode
        rw [hnew] at hlink
        cases hlink)
      (fun h => by cases h) (fun h => by cases h) (hf.isDirectory_startOf _) (Or.inl ⟨rfl, rfl⟩)
    rw [Landing.on, if_pos ⟨rfl, rfl⟩] at hagain
    exact isDirectory_iff.mpr ⟨_, _, locate_eq_ok_iff.mpr ⟨hempty, hagain⟩, hentry, _, _, hnew⟩

/-- A directory is there at the end of some steps, given last one first. -/
def Has (d : Disk) (absolute : Bool) (steps : List String) : Prop :=
  steps = [] ∨ d.isDirectory ⟨absolute, steps.reverse, false⟩ = true

theorem makeAll_widens (hf : d.Formed) (absolute : Bool) (steps : List String) :
    Widens d (d.makeAll absolute steps).2 ∧
      ((d.makeAll absolute steps).1 = .ok () → (d.makeAll absolute steps).2.Has absolute steps) := by
  have hfound : ∀ {e : Disk} {p : Path} {error : SystemError},
      (if e.isDirectory p = true then Except.ok () else .error error) = .ok () →
        e.isDirectory p = true := fun h => by
    split at h
    · assumption
    · cases h
  fun_induction d.makeAll absolute steps with
  | case1 => exact ⟨.refl hf, fun _ => Or.inl rfl⟩
  | case2 step before path d' hmake =>
    obtain ⟨hwidens, hdirectory⟩ := makeDirectory_widens hf hmake
    exact ⟨hwidens, fun _ => Or.inr hdirectory⟩
  | case3 step before path error hmake hother =>
    exact ⟨.refl hf, fun hok => Or.inr (hfound hok)⟩
  | case4 step before path error hmake hmissing error' d' hall ih =>
    obtain ⟨hwidens, -⟩ := ih
    rw [hall] at hwidens
    exact ⟨hwidens, fun hok => by cases hok⟩
  | case5 step before path error hmake hmissing d' hall d'' hagain ih =>
    obtain ⟨hwidens, -⟩ := ih
    rw [hall] at hwidens
    obtain ⟨hwidens', hdirectory⟩ := makeDirectory_widens hwidens.formed hagain
    exact ⟨hwidens.trans hwidens', fun _ => Or.inr hdirectory⟩
  | case6 step before path error hmake hmissing d' hall error' hagain ih =>
    obtain ⟨hwidens, -⟩ := ih
    rw [hall] at hwidens
    exact ⟨hwidens, fun hok => Or.inr (hfound hok)⟩

/-- There is nothing to do for directories that are there. -/
theorem makeAll_of_has {absolute : Bool} {steps : List String} (h : d.Has absolute steps) :
    d.makeAll absolute steps = (.ok (), d) := by
  cases steps with
  | nil => rw [makeAll]
  | cons step before =>
    have hdirectory := h.resolve_left (List.cons_ne_nil _ _)
    have hexists : d.makeDirectory ⟨absolute, (step :: before).reverse, false⟩ =
        .error (.code Errno.alreadyExists) := by
      obtain ⟨l, node, hl, hnode, -⟩ := isDirectory_iff.mp hdirectory
      obtain ⟨hempty, hreaches⟩ := locate_eq_ok_iff.mp hl
      obtain ⟨l', node', hreaches', hnode'⟩ := hreaches.unfollowed hnode
      unfold makeDirectory
      rw [locate_eq_ok_iff.mpr ⟨hempty, hreaches'⟩]
      simp only [bind, Except.bind, hnode']
      cases l'.name <;> rfl
    rw [makeAll, hexists]
    dsimp only
    rw [if_pos (by decide), if_pos hdirectory]

theorem makeDirectories_widens (hf : d.Formed) (path : Path) :
    Widens d (d.makeDirectories path).2 ∧ ((d.makeDirectories path).1 = .ok () →
      (d.makeDirectories path).2.Has path.absolute path.steps.reverse) :=
  makeAll_widens hf path.absolute path.steps.reverse

theorem mem_named_of_find (hf : d.Formed) (h : d.find path = .ok (.file serial)) :
    serial ∈ d.named := by
  obtain ⟨l, node, hl, hnode, hkind⟩ := find_eq_ok_iff.mp h
  obtain ⟨hdirectory, hlands⟩ := locate_lands hf hl
  obtain ⟨parent, entries, hentries⟩ := hdirectory
  rw [hnode] at hlands
  cases hname : l.name with
  | none =>
    rw [hname] at hlands
    cases hlands
    rw [hkind] at hentries
    cases hentries
  | some name =>
    rw [hname] at hlands
    dsimp only at hlands
    rw [entry?_eq hentries] at hlands
    exact mem_named.mpr ⟨l.directory, parent, entries, name, node, hentries,
      mem_of_lookup hlands.symm, hkind⟩

/-- A new file has a place that nothing had, and the rest of the tree stays as it is. -/
theorem createFile_places {mode identity : Nat} (hf : d.Formed)
    (h : d.createFile path mode identity = .ok (serial, d')) :
    ∃ (place : Nat × String) (node : Nat), d.locate { follow := false, makes := true } path =
        .ok ⟨place.1, some place.2, none⟩ ∧ d.entry? place.1 place.2 = none ∧ KeepsBut place d d' ∧
      d'.entry? place.1 place.2 = some node ∧ d'.nodes[node]? = some (.file serial) := by
  obtain ⟨directory, name, hl, rfl, rfl⟩ := createFile_adds h
  obtain ⟨hdirectory, habsent⟩ := locate_lands hf hl
  replace habsent : d.entry? directory name = none := habsent.symm
  have hkeeps : KeepsBut (directory, name) d (d.addEntry directory name (.file d.files.size)) :=
    keeps_addEntry (directory, name) hdirectory habsent
  have hnode : (d.addEntry directory name (.file d.files.size)).nodes[d.nodes.size]? =
      some (.file d.files.size) := by
    rw [getElem?_addEntry _ _ hdirectory, if_pos rfl]
  exact ⟨(directory, name), d.nodes.size, hl, habsent,
    ⟨hkeeps.file, hkeeps.link, hkeeps.directory⟩,
    entry?_addEntry name (.file d.files.size) hdirectory, hnode⟩

/-- The path of a new file leads to it. -/
theorem find_of_createFile {mode identity : Nat} (hf : d.Formed)
    (h : d.createFile path mode identity = .ok (serial, d')) : d'.find path = .ok (.file serial) := by
  obtain ⟨place, node, hl, habsent, hkeeps, hentry, hnode⟩ := createFile_places hf h
  obtain ⟨hempty, hreaches⟩ := locate_eq_ok_iff.mp hl
  have hbare : d.Bare place := fun node hother => by
    rw [habsent] at hother
    cases hother
  have hbare' : d'.Bare place := fun node' hother => by
    cases hentry.symm.trans hother
    exact ⟨serial, hnode⟩
  have hagain := hreaches.again { follow := true } hkeeps hf hbare hbare'.direct
    (fun h => by cases h) (fun h => by cases h) (hf.isDirectory_startOf _) (Or.inl ⟨rfl, rfl⟩)
  rw [Landing.on, if_pos ⟨rfl, rfl⟩] at hagain
  exact find_eq_ok_iff.mpr ⟨_, _, locate_eq_ok_iff.mpr ⟨hempty, hagain⟩, hentry, hnode⟩

/-- With a new file the tree is one still, and only that file is newly named. -/
theorem createFile_formed {mode identity : Nat} (hf : d.Formed)
    (h : d.createFile path mode identity = .ok (serial, d')) :
    d'.Formed ∧ ∀ other ∈ d'.named, other ∈ d.named ∨ other = serial := by
  obtain ⟨directory, name, hl, rfl, rfl⟩ := createFile_adds h
  obtain ⟨hdirectory, habsent⟩ := locate_lands hf hl
  replace habsent : d.entry? directory name = none := habsent.symm
  generalize hfile : (⟨identity, granted mode, { region := Region.zeros 0 }⟩ : File) = file
  have hgrown : ({ d with files := d.files.push file } : Disk).Formed :=
    hf.of_nodes rfl (by simp only [Array.size_push]; omega)
  refine ⟨hgrown.addEntry hdirectory habsent (Or.inr ⟨d.files.size, ?_, rfl⟩), fun other hother => ?_⟩
  · rw [Array.size_push]
    exact Nat.lt_succ_self _
  · rcases mem_named_of_addEntry (d := d) hdirectory (fun _ _ heq => by cases heq) hother with h | heq
    · exact Or.inl h
    · cases heq
      exact Or.inr rfl

theorem unlink_formed (hf : d.Formed) (h : d.unlink path = .ok d') :
    d'.Formed ∧ ∀ other ∈ d'.named, other ∈ d.named := by
  obtain ⟨directory, name, node, -, rfl⟩ := unlink_removes h
  exact ⟨hf.removeEntry, fun _ => mem_named_of_removeEntry⟩

end MappedQueue.Disk
