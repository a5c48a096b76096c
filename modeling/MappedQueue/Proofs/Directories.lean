import MappedQueue.Proofs.Hosts

/-!
# Where paths lead

A path that leads to a place goes on leading there while names are added elsewhere: taking
its steps again meets the same directories and links. What may change is the name at the
place itself, as long as a file has it or nothing.
-/

namespace MappedQueue

namespace Disk

variable {d d' : Disk} {directory node : Nat} {name step : String}

def IsDirectory (d : Disk) (node : Nat) : Prop :=
  ∃ parent entries, d.nodes[node]? = some (.directory parent entries)

/-- The tree is one: names and parents lead to nodes there are, parents to directories, and
files to files there are. -/
structure Formed (d : Disk) : Prop where
  top : d.IsDirectory Disk.top
  working : d.IsDirectory Disk.working
  parent {node parent : Nat} {entries : List (String × Nat)}
    (h : d.nodes[node]? = some (.directory parent entries)) : d.IsDirectory parent
  entry_lt {node parent : Nat} {entries : List (String × Nat)}
    (h : d.nodes[node]? = some (.directory parent entries)) :
      ∀ entry ∈ entries, entry.2 < d.nodes.size
  file_lt {node serial : Nat} (h : d.nodes[node]? = some (.file serial)) : serial < d.files.size

/-- The disk to begin with is a tree. -/
theorem formed_fresh : fresh.Formed := by
  have hcases : ∀ {node : Nat} {kind : Node}, fresh.nodes[node]? = some kind →
      kind = .directory top [("queues", working)] ∨ kind = .directory top [] := by
    intro node kind h
    have := Array.mem_of_getElem? h
    simpa [fresh] using this
  constructor
  case top => exact ⟨_, _, rfl⟩
  case working => exact ⟨_, _, rfl⟩
  case parent =>
    intro node parent entries h
    rcases hcases h with heq | heq
    · cases heq
      exact ⟨_, _, rfl⟩
    · cases heq
      exact ⟨_, _, rfl⟩
  case entry_lt =>
    intro node parent entries h entry hentry
    rcases hcases h with heq | heq
    · cases heq
      cases List.mem_singleton.mp hentry
      decide
    · cases heq
      cases hentry
  case file_lt =>
    intro node serial h
    rcases hcases h with heq | heq <;> cases heq

theorem entry?_eq {parent : Nat} {entries : List (String × Nat)}
    (h : d.nodes[directory]? = some (.directory parent entries)) :
    d.entry? directory name = entries.lookup name := by
  simp only [ entry?, h]

theorem mem_of_lookup {entries : List (String × Nat)} (h : entries.lookup name = some node) :
    (name, node) ∈ entries := by
  obtain ⟨before, after, hsplit, -⟩ := List.lookup_eq_some_iff.mp h
  rw [hsplit]
  exact List.mem_append_right _ List.mem_cons_self

/-- A name is that of a node. -/
theorem Formed.lt_of_entry (hf : d.Formed) (h : d.entry? directory name = some node) :
    node < d.nodes.size := by
  unfold entry? at h
  split at h
  · rename_i parent entries hnode
    exact hf.entry_lt hnode _ (mem_of_lookup h)
  · cases h

theorem Formed.isDirectory_parent (hf : d.Formed) (h : d.IsDirectory directory) :
    d.IsDirectory (d.parent directory) := by
  obtain ⟨parent, entries, hnode⟩ := h
  simp only [Disk.parent, hnode]
  exact hf.parent hnode

theorem Formed.isDirectory_linkStart (hf : d.Formed) (h : d.IsDirectory directory) (target : Path) :
    d.IsDirectory (linkStart directory target) := by
  unfold linkStart
  split
  · exact hf.top
  · exact h

/-- A step that is the name of something in a directory. -/
structure IsName (step : String) : Prop where
  ne_here : step ≠ Path.here
  ne_nameless : step ≠ Path.nameless
  ne_up : step ≠ Path.up
  size_le : step.utf8ByteSize ≤ maxStepBytes

/-- Steps from a directory lead to a landing through no more than so many links. -/
inductive Reaches (d : Disk) (aim : Aim) : (links directory : Nat) → List String → Landing → Prop
  | here {links directory : Nat} :
      Reaches d aim links directory [] ⟨directory, none, some directory⟩
  | stay {links directory : Nat} {step : String} {rest : List String} {l : Landing}
      (hstep : step = Path.here ∨ step = Path.nameless)
      (hrest : Reaches d aim links directory rest l) :
      Reaches d aim links directory (step :: rest) l
  | up {links directory : Nat} {rest : List String} {l : Landing}
      (hrest : Reaches d aim links (d.parent directory) rest l) :
      Reaches d aim links directory (Path.up :: rest) l
  | last {links directory : Nat} {step : String} (hname : IsName step)
      (hnode : ∀ node target, d.entry? directory step = some node →
        d.nodes[node]? = some (.link target) → aim.follow = false) :
      Reaches d aim links directory [step] ⟨directory, some step, d.entry? directory step⟩
  | enter {links directory node : Nat} {step : String} {rest : List String} {l : Landing}
      (hname : IsName step) (hplain : (aim.makes && slashAfter rest) = false) (hmore : rest ≠ [])
      (hentry : d.entry? directory step = some node) (hnode : d.IsDirectory node)
      (hrest : Reaches d aim links node rest l) :
      Reaches d aim links directory (step :: rest) l
  | link {links directory node : Nat} {step : String} {rest : List String} {target : Path}
      {l : Landing} (hname : IsName step) (hplain : (aim.makes && slashAfter rest) = false)
      (hfollow : rest = [] → aim.follow = true) (hentry : d.entry? directory step = some node)
      (hnode : d.nodes[node]? = some (.link target))
      (hrest : Reaches d aim links (linkStart directory target) (target.walked ++ rest) l) :
      Reaches d aim (links + 1) directory (step :: rest) l

theorem isName_of {step : String} (hhere : ¬ (step == Path.here || step == Path.nameless) = true)
    (hup : ¬ (step == Path.up) = true) (hsize : ¬ maxStepBytes < step.utf8ByteSize) :
    IsName step := by
  simp only [Bool.or_eq_true, beq_iff_eq, not_or] at hhere hup
  exact ⟨hhere.1, hhere.2, hup, Nat.le_of_not_lt hsize⟩

theorem Reaches.of_walk {aim : Aim} {links : Nat} {again : Nat → List String → Except SystemError Landing}
    (hagain : ∀ directory steps l, again directory steps = .ok l →
      ∃ fewer, links = fewer + 1 ∧ Reaches d aim fewer directory steps l) :
    ∀ {steps : List String} {directory : Nat} {l : Landing},
      walk d again aim directory steps = .ok l → Reaches d aim links directory steps l := by
  intro steps
  induction steps with
  | nil =>
    intro directory l h
    cases h
    exact .here
  | cons step rest ih =>
    intro directory l h
    rw [walk] at h
    split at h
    case isTrue hstays => exact .stay (by simpa using hstays) (ih h)
    case isFalse hstays =>
    split at h
    case isTrue hup =>
      rw [eq_of_beq hup]
      exact .up (ih h)
    case isFalse hup =>
    split at h
    case isTrue => cases h
    case isFalse hplain =>
    simp only [Bool.not_eq_true] at hplain
    split at h
    case isTrue => cases h
    case isFalse hsize =>
    have hname := isName_of hstays hup hsize
    split at h
    case h_1 hentry =>
      split at h
      case isFalse => cases h
      case isTrue hlast =>
        cases h
        rw [List.isEmpty_iff.mp hlast, ← hentry]
        exact .last hname fun node _ hnode => by rw [hentry] at hnode; cases hnode
    case h_2 node hentry =>
      split at h
      case h_1 parent entries hnode =>
        split at h
        case isTrue hlast =>
          cases h
          rw [List.isEmpty_iff.mp hlast, ← hentry]
          refine .last hname fun other target hother hlink => ?_
          rw [hentry] at hother
          cases hother
          rw [hnode] at hlink
          cases hlink
        case isFalse hmore =>
          exact .enter hname hplain (fun hnil => hmore (by rw [hnil]; rfl)) hentry
            ⟨parent, entries, hnode⟩ (ih h)
      case h_2 target hnode =>
        split at h
        case isTrue hlast =>
          cases h
          simp only [Bool.and_eq_true, List.isEmpty_iff, Bool.not_eq_true'] at hlast
          rw [hlast.1, ← hentry]
          exact .last hname fun _ _ _ _ => hlast.2
        case isFalse hfollow =>
          obtain ⟨fewer, rfl, hrest⟩ := hagain _ _ _ h
          refine .link hname hplain (fun hnil => ?_) hentry hnode hrest
          rw [hnil] at hfollow
          simpa using hfollow
      case h_3 hfile hlink =>
        split at h
        case isFalse => cases h
        case isTrue hlast =>
          cases h
          rw [List.isEmpty_iff.mp hlast, ← hentry]
          refine .last hname fun other target hother hnode => ?_
          rw [hentry] at hother
          cases hother
          exact absurd hnode (hlink target)

/-- What `resolve` finds is where the steps lead. -/
theorem Reaches.of_resolve {aim : Aim} : ∀ {links directory : Nat} {steps : List String} {l : Landing},
    resolve d aim links directory steps = .ok l →
      ∃ fewer, links = fewer + 1 ∧ Reaches d aim fewer directory steps l := by
  intro links
  induction links with
  | zero => intro directory steps l h; cases h
  | succ links ih =>
    intro directory steps l h
    exact ⟨links, rfl, .of_walk (fun directory steps l h => ih h) h⟩

/-- What the walk asks of a step, it can answer for a name. -/
theorem IsName.tests (h : IsName step) : (step == Path.here || step == Path.nameless) = false ∧
    (step == Path.up) = false ∧ ¬ maxStepBytes < step.utf8ByteSize := by
  refine ⟨?_, by simpa using h.ne_up, Nat.not_lt.mpr h.size_le⟩
  simp only [Bool.or_eq_false_iff, beq_eq_false_iff_ne]
  exact ⟨h.ne_here, h.ne_nameless⟩

section Walk

variable {aim : Aim} {again : Nat → List String → Except SystemError Landing} {directory node : Nat}
  {step : String} {rest : List String}

/-- A walk ends at a name that stands for nothing. -/
theorem walk_missing (hname : IsName step) (hplain : (aim.makes && slashAfter rest) = false)
    (hentry : d.entry? directory step = none) :
    walk d again aim directory (step :: rest) =
      if rest.isEmpty then .ok ⟨directory, some step, none⟩ else .error (.code Errno.noEntry) := by
  obtain ⟨hhere, hup, hsize⟩ := hname.tests
  rw [walk, hhere, hup, if_neg (by decide), if_neg (by decide), hplain, if_neg (by decide),
    if_neg hsize, hentry]

/-- A walk goes through a directory. -/
theorem walk_enter (hname : IsName step) (hplain : (aim.makes && slashAfter rest) = false)
    (hmore : rest ≠ []) (hentry : d.entry? directory step = some node)
    (hdirectory : d.IsDirectory node) :
    walk d again aim directory (step :: rest) = walk d again aim node rest := by
  obtain ⟨hhere, hup, hsize⟩ := hname.tests
  obtain ⟨parent, entries, hkind⟩ := hdirectory
  rw [walk, hhere, hup, if_neg (by decide), if_neg (by decide), hplain, if_neg (by decide),
    if_neg hsize, hentry]
  dsimp only
  rw [hkind]
  dsimp only
  rw [if_neg (by simpa using hmore)]

/-- A walk goes on where a link leads, unless it is the last step and is not to be followed. -/
theorem walk_link {target : Path} (hname : IsName step)
    (hplain : (aim.makes && slashAfter rest) = false) (hfollow : rest = [] → aim.follow = true)
    (hentry : d.entry? directory step = some node) (hkind : d.nodes[node]? = some (.link target)) :
    walk d again aim directory (step :: rest) =
      again (linkStart directory target) (target.walked ++ rest) := by
  obtain ⟨hhere, hup, hsize⟩ := hname.tests
  rw [walk, hhere, hup, if_neg (by decide), if_neg (by decide), hplain, if_neg (by decide),
    if_neg hsize, hentry]
  dsimp only
  rw [hkind]
  dsimp only
  rw [if_neg (by simpa using hfollow)]

end Walk

/-- Where the steps lead, `resolve` finds it. -/
theorem Reaches.resolve {aim : Aim} {links directory : Nat} {steps : List String} {l : Landing}
    (h : Reaches d aim links directory steps l) :
    resolve d aim (links + 1) directory steps = .ok l := by
  unfold Disk.resolve at *
  induction h with
  | here => rfl
  | stay hstep hrest ih =>
    rw [walk, if_pos (by simpa using hstep)]
    exact ih
  | up hrest ih =>
    rw [walk, if_neg (by decide), if_pos (by decide)]
    exact ih
  | @last links directory step hstep hnode =>
    obtain ⟨hhere, hup, hsize⟩ := hstep.tests
    rw [walk, hhere, hup, if_neg (by decide), if_neg (by decide),
      if_neg (by simp only [slashAfter]; simp), if_neg hsize]
    cases hentry : d.entry? directory step with
    | none => rfl
    | some node =>
      dsimp only
      split
      · rfl
      · rename_i target hkind
        rw [hnode node target hentry hkind]
        rfl
      · rfl
  | enter hstep hplain hmore hentry hdirectory _ ih =>
    rw [walk_enter hstep hplain hmore hentry hdirectory]
    exact ih
  | link hstep hplain hfollow hentry hkind _ ih =>
    rw [walk_link hstep hplain hfollow hentry hkind]
    exact ih

/-- Where the first step of a path is taken. -/
def startOf (path : Path) : Nat := if path.absolute then Disk.top else Disk.working

theorem locate_eq_ok_iff {aim : Aim} {path : Path} {l : Landing} :
    d.locate aim path = .ok l ↔
      path.isEmpty = false ∧ Reaches d aim maxLinks (startOf path) path.walked l := by
  unfold locate
  constructor
  · intro h
    split at h
    case isTrue => cases h
    case isFalse hempty =>
      obtain ⟨fewer, hlinks, hreaches⟩ := Reaches.of_resolve h
      cases hlinks
      exact ⟨by simpa using hempty, hreaches⟩
  · intro ⟨hempty, hreaches⟩
    rw [if_neg (by rw [hempty]; decide)]
    exact hreaches.resolve

theorem Formed.isDirectory_startOf (hf : d.Formed) (path : Path) : d.IsDirectory (startOf path) := by
  unfold startOf
  split
  · exact hf.top
  · exact hf.working

/-- Steps end in a directory, at what has the last of them as its name. -/
theorem Reaches.lands {aim : Aim} {links : Nat} {steps : List String} {l : Landing} (hf : d.Formed)
    (h : Reaches d aim links directory steps l) : d.IsDirectory directory →
      d.IsDirectory l.directory ∧
        l.node = match l.name with
          | none => some l.directory
          | some name => d.entry? l.directory name := by
  induction h with
  | here => exact fun hdirectory => ⟨hdirectory, rfl⟩
  | stay _ _ ih => exact ih
  | up _ ih => exact fun hdirectory => ih (hf.isDirectory_parent hdirectory)
  | last _ _ => exact fun hdirectory => ⟨hdirectory, rfl⟩
  | enter _ _ _ _ hnode _ ih => exact fun _ => ih hnode
  | @link _ _ _ _ _ target _ _ _ _ _ _ _ ih =>
    exact fun hdirectory => ih (hf.isDirectory_linkStart hdirectory target)

/-- The one disk has all that the other has, but for what has one name in one directory. -/
structure KeepsBut (place : Nat × String) (d d' : Disk) : Prop where
  file {node serial : Nat} (h : d.nodes[node]? = some (.file serial)) :
    d'.nodes[node]? = some (.file serial)
  link {node : Nat} {target : Path} (h : d.nodes[node]? = some (.link target)) :
    d'.nodes[node]? = some (.link target)
  directory {node parent : Nat} {entries : List (String × Nat)}
    (h : d.nodes[node]? = some (.directory parent entries)) :
      ∃ entries', d'.nodes[node]? = some (.directory parent entries') ∧
        ∀ name other, (node, name) ≠ place → entries.lookup name = some other →
          entries'.lookup name = some other

namespace KeepsBut

variable {place : Nat × String}

theorem isDirectory (hk : KeepsBut place d d') (h : d.IsDirectory node) : d'.IsDirectory node := by
  obtain ⟨parent, entries, hnode⟩ := h
  obtain ⟨entries', hnode', -⟩ := hk.directory hnode
  exact ⟨parent, entries', hnode'⟩

theorem parent_eq (hk : KeepsBut place d d') (h : d.IsDirectory node) :
    d'.parent node = d.parent node := by
  obtain ⟨parent, entries, hnode⟩ := h
  obtain ⟨entries', hnode', -⟩ := hk.directory hnode
  simp only [Disk.parent, hnode, hnode']

theorem entry_eq (hk : KeepsBut place d d') (hplace : (directory, name) ≠ place)
    (h : d.entry? directory name = some node) : d'.entry? directory name = some node := by
  cases hnode : d.nodes[directory]? with
  | none =>
    simp only [ entry?, hnode] at h
    cases h
  | some kind =>
    cases kind with
    | file serial =>
      simp only [ entry?, hnode] at h
      cases h
    | link target =>
      simp only [ entry?, hnode] at h
      cases h
    | directory parent entries =>
      obtain ⟨entries', hnode', hlookup⟩ := hk.directory hnode
      rw [entry?_eq hnode] at h
      rw [entry?_eq hnode']
      exact hlookup name node hplace h

theorem refl (d : Disk) : KeepsBut place d d :=
  ⟨id, id, fun h => ⟨_, h, fun _ _ _ hlookup => hlookup⟩⟩

theorem trans {d'' : Disk} (hk : KeepsBut place d d') (hk' : KeepsBut place d' d'') :
    KeepsBut place d d'' where
  file h := hk'.file (hk.file h)
  link h := hk'.link (hk.link h)
  directory h := by
    obtain ⟨entries', h', hlookup⟩ := hk.directory h
    obtain ⟨entries'', h'', hlookup'⟩ := hk'.directory h'
    exact ⟨entries'', h'', fun name other hne h =>
      hlookup' name other hne (hlookup name other hne h)⟩

end KeepsBut

/-- Nothing but a file has a place, if anything has it. -/
def Bare (d : Disk) (place : Nat × String) : Prop :=
  ∀ node, d.entry? place.1 place.2 = some node → ∃ serial, d.nodes[node]? = some (.file serial)

/-- What has a place, if anything has it, is not a link. -/
def Direct (d : Disk) (place : Nat × String) : Prop :=
  ∀ node target, d.entry? place.1 place.2 = some node → d.nodes[node]? ≠ some (.link target)

theorem Bare.direct {place : Nat × String} (h : d.Bare place) : d.Direct place := by
  intro node target hentry hlink
  obtain ⟨serial, hfile⟩ := h node hentry
  rw [hfile] at hlink
  cases hlink

end Disk

namespace Landing

def At (place : Nat × String) (l : Landing) : Prop := l.directory = place.1 ∧ l.name = some place.2

instance (place : Nat × String) (l : Landing) : Decidable (At place l) :=
  inferInstanceAs (Decidable (_ ∧ _))

/-- The landing at a place on another disk. -/
def on (l : Landing) (d : Disk) (place : Nat × String) : Landing :=
  if At place l then { l with node := d.entry? place.1 place.2 } else l

end Landing

namespace Disk

variable {d d' : Disk} {directory node : Nat} {name step : String}

/-- Steps that lead to a place or to a directory lead there on any disk that keeps the rest,
whether or not they are taken for a file to be made. -/
theorem Reaches.again {place : Nat × String} {aim : Aim} (aim' : Aim) {links : Nat} {steps : List String}
    {l : Landing} (hk : KeepsBut place d d') (hf : d.Formed) (hb : d.Bare place) (hd : d'.Direct place)
    (hfollow : aim.follow = true → aim'.follow = true)
    (hmakes : aim'.makes = true → aim.makes = true)
    (h : Reaches d aim links directory steps l) : d.IsDirectory directory →
      (Landing.At place l ∨ ∃ node, l.node = some node ∧ d.IsDirectory node) →
        Reaches d' aim' links directory steps (l.on d' place) := by
  have hplain : ∀ rest, (aim.makes && slashAfter rest) = false →
      (aim'.makes && slashAfter rest) = false := fun rest h => by
    cases hmakes' : aim'.makes with
    | false => rfl
    | true =>
      rw [hmakes hmakes'] at h
      exact h
  -- Whoever passes through the place meets a file or nothing.
  have hpass : ∀ {directory node : Nat} {step : String}, d.entry? directory step = some node →
      (∀ serial, d.nodes[node]? ≠ some (.file serial)) → (directory, step) ≠ place := by
    rintro directory node step hentry hnode rfl
    obtain ⟨serial, hfile⟩ := hb node hentry
    exact hnode serial hfile
  induction h with
  | @here links directory =>
    intro _ _
    rw [Landing.on, if_neg (fun hat => by cases hat.2)]
    exact .here
  | stay hstep _ ih => exact fun hdirectory hfirm => .stay hstep (ih hdirectory hfirm)
  | up _ ih =>
    intro hdirectory hfirm
    refine .up ?_
    rw [hk.parent_eq hdirectory]
    exact ih (hf.isDirectory_parent hdirectory) hfirm
  | @last links directory step hname hnode =>
    intro hdirectory hfirm
    by_cases hat : Landing.At place ⟨directory, some step, d.entry? directory step⟩
    · rw [Landing.on, if_pos hat]
      obtain ⟨rfl, hstep⟩ := hat
      cases hstep
      exact .last hname fun node target hentry hlink => absurd hlink (hd node target hentry)
    · obtain ⟨node, hentry, hkind⟩ := hfirm.resolve_left hat
      have hne : (directory, step) ≠ place := by
        rintro rfl
        exact hat ⟨rfl, rfl⟩
      rw [Landing.on, if_neg hat]
      rw [show d.entry? directory step = d'.entry? directory step from
        hentry.trans (hk.entry_eq hne hentry).symm]
      refine .last hname fun other target hother hlink => ?_
      rw [hk.entry_eq hne hentry] at hother
      cases hother
      obtain ⟨parent, entries, hdirectory'⟩ := hk.isDirectory hkind
      rw [hdirectory'] at hlink
      cases hlink
  | enter hname hrest hmore hentry hnode _ ih =>
    intro hdirectory hfirm
    obtain ⟨parent, entries, hkind⟩ := hnode
    have hne := hpass hentry fun serial hfile => by rw [hkind] at hfile; cases hfile
    exact .enter hname (hplain _ hrest) hmore (hk.entry_eq hne hentry)
      (hk.isDirectory ⟨parent, entries, hkind⟩) (ih ⟨parent, entries, hkind⟩ hfirm)
  | @link links directory node step rest target l hname hrest hlast hentry hnode _ ih =>
    intro hdirectory hfirm
    have hne := hpass hentry fun serial hfile => by rw [hnode] at hfile; cases hfile
    exact .link hname (hplain _ hrest) (fun hnil => hfollow (hlast hnil)) (hk.entry_eq hne hentry)
      (hk.link hnode) (ih (hf.isDirectory_linkStart hdirectory target) hfirm)

theorem IsDirectory.lt (h : d.IsDirectory node) : node < d.nodes.size := by
  obtain ⟨parent, entries, hnode⟩ := h
  exact (Array.getElem?_eq_some_iff.mp hnode).1

theorem getElem?_addEntry (name : String) (added : Node) (hdirectory : d.IsDirectory directory)
    (node : Nat) :
    (d.addEntry directory name added).nodes[node]? =
      if node = d.nodes.size then some added
      else if node = directory then (d.nodes[node]?).map fun
        | .directory parent entries => .directory parent ((name, d.nodes.size) :: entries)
        | other => other
      else d.nodes[node]? := by
  have hlt := hdirectory.lt
  simp only [addEntry, Array.getElem?_modify, Array.getElem?_push]
  by_cases hsize : node = d.nodes.size
  · rw [if_pos hsize, if_neg (by omega), if_pos hsize]
  · rw [if_neg hsize, if_neg hsize]
    by_cases hnode : node = directory
    · rw [if_pos hnode]
      exact if_pos hnode.symm
    · rw [if_neg hnode, if_neg (Ne.symm hnode)]

theorem getElem?_removeEntry (directory node : Nat) (name : String) :
    (d.removeEntry directory name).nodes[node]? =
      if node = directory then (d.nodes[node]?).map fun
        | .directory parent entries => .directory parent (entries.filter (·.1 != name))
        | other => other
      else d.nodes[node]? := by
  simp only [removeEntry, Array.getElem?_modify]
  by_cases hnode : node = directory
  · rw [if_pos hnode]
    exact if_pos hnode.symm
  · rw [if_neg hnode, if_neg (Ne.symm hnode)]

/-- A new name is of the new node. -/
theorem entry?_addEntry (name : String) (added : Node) (hdirectory : d.IsDirectory directory) :
    Disk.entry? (d.addEntry directory name added) directory name = some d.nodes.size := by
  obtain ⟨parent, entries, hnode⟩ := hdirectory
  have hlt := IsDirectory.lt ⟨parent, entries, hnode⟩
  have hnode' := getElem?_addEntry name added ⟨parent, entries, hnode⟩ directory
  rw [if_neg (Nat.ne_of_lt hlt), if_pos rfl, hnode] at hnode'
  rw [entry?_eq hnode', List.lookup_cons_self]

/-- A new name changes nothing that a name led to. -/
theorem keeps_addEntry {added : Node} (place : Nat × String) (hdirectory : d.IsDirectory directory)
    (habsent : d.entry? directory name = none) :
    KeepsBut place d (d.addEntry directory name added) := by
  have hold : ∀ {node kind}, d.nodes[node]? = some kind → node ≠ d.nodes.size := fun h =>
    Nat.ne_of_lt (Array.getElem?_eq_some_iff.mp h).1
  obtain ⟨parent₀, entries₀, hnode₀⟩ := id hdirectory
  constructor
  · intro node serial h
    rw [getElem?_addEntry _ _ hdirectory, if_neg (hold h)]
    split
    · rw [h]
      rfl
    · exact h
  · intro node target h
    rw [getElem?_addEntry _ _ hdirectory, if_neg (hold h)]
    split
    · rw [h]
      rfl
    · exact h
  · intro node parent entries h
    rw [getElem?_addEntry _ _ hdirectory, if_neg (hold h)]
    split
    case isFalse => exact ⟨entries, h, fun _ _ _ hlookup => hlookup⟩
    case isTrue hnode =>
      subst hnode
      rw [entry?_eq h] at habsent
      rw [h]
      refine ⟨_, rfl, fun step other _ hlookup => ?_⟩
      have hne : step ≠ name := by
        rintro rfl
        rw [habsent] at hlookup
        cases hlookup
      rw [List.lookup_cons, beq_false_of_ne hne]
      exact hlookup

theorem lookup_filter_ne {entries : List (String × Nat)} {step : String} (hne : step ≠ name) :
    (entries.filter (·.1 != name)).lookup step = entries.lookup step := by
  induction entries with
  | nil => rfl
  | cons entry entries ih =>
    obtain ⟨first, other⟩ := entry
    rw [List.filter_cons]
    split
    · rw [List.lookup_cons, List.lookup_cons, ih]
    · rename_i hfirst
      have hstep : step ≠ first := by simpa using fun h => hne (h.trans (by simpa using hfirst))
      rw [ih, List.lookup_cons, beq_false_of_ne hstep]

theorem lookup_filter_self (entries : List (String × Nat)) :
    (entries.filter (·.1 != name)).lookup name = none := by
  rw [List.lookup_eq_none_iff]
  intro entry hentry
  have hne := (List.mem_filter.mp hentry).2
  simp only [bne_iff_ne, ne_eq] at hne
  simpa using fun h => hne h.symm

theorem entry?_removeEntry : Disk.entry? (d.removeEntry directory name) directory name = none := by
  simp only [ entry?, getElem?_removeEntry, if_true]
  cases hnode : d.nodes[directory]? with
  | none => rfl
  | some kind =>
    cases kind with
    | file => rfl
    | link => rfl
    | directory parent entries => exact lookup_filter_self entries

theorem keeps_removeEntry : KeepsBut (directory, name) d (d.removeEntry directory name) := by
  constructor
  · intro node serial h
    rw [getElem?_removeEntry]
    split
    · rw [h]
      rfl
    · exact h
  · intro node target h
    rw [getElem?_removeEntry]
    split
    · rw [h]
      rfl
    · exact h
  · intro node parent entries h
    rw [getElem?_removeEntry]
    split
    case isFalse => exact ⟨entries, h, fun _ _ _ hlookup => hlookup⟩
    case isTrue hnode =>
      subst hnode
      rw [h]
      refine ⟨_, rfl, fun step other hne hlookup => ?_⟩
      rw [lookup_filter_ne fun heq => hne (by rw [heq])]
      exact hlookup

theorem Formed.of_nodes (hf : d.Formed) (hnodes : d'.nodes = d.nodes)
    (hfiles : d.files.size ≤ d'.files.size) : d'.Formed := by
  have hdirectory : ∀ {node}, d.IsDirectory node → d'.IsDirectory node := fun h => by
    unfold IsDirectory
    rw [hnodes]
    exact h
  constructor
  · exact hdirectory hf.top
  · exact hdirectory hf.working
  · intro node parent entries h
    rw [hnodes] at h
    exact hdirectory (hf.parent h)
  · intro node parent entries h
    rw [hnodes] at h ⊢
    exact hf.entry_lt h
  · intro node serial h
    rw [hnodes] at h
    exact Nat.lt_of_lt_of_le (hf.file_lt h) hfiles

/-- A node of a tree with one more name is an old one, that directory, or the new one. -/
theorem addEntry_cases {added kind : Node} (hdirectory : d.IsDirectory directory)
    (h : (d.addEntry directory name added).nodes[node]? = some kind) :
    (node = d.nodes.size ∧ kind = added) ∨ d.nodes[node]? = some kind ∨
      ∃ parent entries, d.nodes[node]? = some (.directory parent entries) ∧
        kind = .directory parent ((name, d.nodes.size) :: entries) := by
  rw [getElem?_addEntry _ _ hdirectory] at h
  split at h
  case isTrue hnode => exact Or.inl ⟨hnode, (Option.some.inj h).symm⟩
  case isFalse =>
  split at h
  case isFalse => exact Or.inr (Or.inl h)
  case isTrue =>
    obtain ⟨before, hbefore, hkind⟩ := Option.map_eq_some_iff.mp h
    cases before with
    | file serial => exact Or.inr (Or.inl (by rw [hbefore, ← hkind]))
    | link target => exact Or.inr (Or.inl (by rw [hbefore, ← hkind]))
    | directory parent entries => exact Or.inr (Or.inr ⟨parent, entries, hbefore, hkind.symm⟩)

theorem removeEntry_cases {kind : Node}
    (h : (d.removeEntry directory name).nodes[node]? = some kind) :
    d.nodes[node]? = some kind ∨ ∃ parent entries, d.nodes[node]? = some (.directory parent entries) ∧
      kind = .directory parent (entries.filter (·.1 != name)) := by
  rw [getElem?_removeEntry] at h
  split at h
  case isFalse => exact Or.inl h
  case isTrue =>
    obtain ⟨before, hbefore, hkind⟩ := Option.map_eq_some_iff.mp h
    cases before with
    | file serial => exact Or.inl (by rw [hbefore, ← hkind])
    | link target => exact Or.inl (by rw [hbefore, ← hkind])
    | directory parent entries => exact Or.inr ⟨parent, entries, hbefore, hkind.symm⟩

/-- A tree that gets a new directory or a name for a file there is stays one. -/
theorem Formed.addEntry {added : Node} (hf : d.Formed) (hdirectory : d.IsDirectory directory)
    (habsent : d.entry? directory name = none)
    (hadded : added = .directory directory [] ∨ ∃ serial < d.files.size, added = .file serial) :
    (d.addEntry directory name added).Formed := by
  have hkeep : ∀ {node}, d.IsDirectory node → (d.addEntry directory name added).IsDirectory node :=
    (keeps_addEntry (directory, name) hdirectory habsent).isDirectory
  have hsize : (d.addEntry directory name added).nodes.size = d.nodes.size + 1 := by
    simp only [Disk.addEntry, Array.size_modify, Array.size_push]
  constructor
  · exact hkeep hf.top
  · exact hkeep hf.working
  · intro node parent entries h
    rcases addEntry_cases hdirectory h with ⟨-, rfl⟩ | hold | ⟨parent', entries', hold, heq⟩
    · rcases hadded with heq | ⟨serial, -, heq⟩
      · cases heq
        exact hkeep hdirectory
      · cases heq
    · exact hkeep (hf.parent hold)
    · cases heq
      exact hkeep (hf.parent hold)
  · intro node parent entries h entry hentry
    rw [hsize]
    rcases addEntry_cases hdirectory h with ⟨-, rfl⟩ | hold | ⟨parent', entries', hold, heq⟩
    · rcases hadded with heq | ⟨serial, -, heq⟩
      · cases heq
        cases hentry
      · cases heq
    · exact Nat.lt_succ_of_lt (hf.entry_lt hold entry hentry)
    · cases heq
      rcases List.mem_cons.mp hentry with rfl | hentry
      · exact Nat.lt_succ_self _
      · exact Nat.lt_succ_of_lt (hf.entry_lt hold entry hentry)
  · intro node serial h
    rcases addEntry_cases hdirectory h with ⟨-, rfl⟩ | hold | ⟨parent', entries', -, heq⟩
    · rcases hadded with heq | ⟨other, hlt, heq⟩
      · cases heq
      · cases heq
        exact hlt
    · exact hf.file_lt hold
    · cases heq

theorem Formed.removeEntry (hf : d.Formed) : (d.removeEntry directory name).Formed := by
  have hkeep : ∀ {node}, d.IsDirectory node → (d.removeEntry directory name).IsDirectory node :=
    keeps_removeEntry.isDirectory
  have hsize : (d.removeEntry directory name).nodes.size = d.nodes.size := by
    simp only [Disk.removeEntry, Array.size_modify]
  constructor
  · exact hkeep hf.top
  · exact hkeep hf.working
  · intro node parent entries h
    rcases removeEntry_cases h with hold | ⟨parent', entries', hold, heq⟩
    · exact hkeep (hf.parent hold)
    · cases heq
      exact hkeep (hf.parent hold)
  · intro node parent entries h entry hentry
    rw [hsize]
    rcases removeEntry_cases h with hold | ⟨parent', entries', hold, heq⟩
    · exact hf.entry_lt hold entry hentry
    · cases heq
      exact hf.entry_lt hold entry (List.mem_filter.mp hentry).1
  · intro node serial h
    rcases removeEntry_cases h with h | ⟨parent', entries', -, heq⟩
    · exact hf.file_lt h
    · cases heq

theorem mem_named {serial : Nat} :
    serial ∈ d.named ↔ ∃ (directory parent : Nat) (entries : List (String × Nat)) (name : String)
        (node : Nat),
      d.nodes[directory]? = some (Node.directory parent entries) ∧ (name, node) ∈ entries ∧
        d.nodes[node]? = some (Node.file serial) := by
  unfold named
  rw [List.mem_flatMap]
  constructor
  · rintro ⟨kind, hkind, hserial⟩
    obtain ⟨directory, hlt, hget⟩ := List.getElem_of_mem hkind
    cases kind with
    | file other => cases hserial
    | link target => cases hserial
    | directory parent entries =>
      obtain ⟨⟨name, node⟩, hentry, hfile⟩ := List.mem_filterMap.mp hserial
      refine ⟨directory, parent, entries, name, node, ?_, hentry, ?_⟩
      · rw [← hget, Array.getElem_toList]
        exact Array.getElem?_eq_getElem _
      · dsimp only at hfile
        split at hfile
        · rename_i other hnode
          rw [hnode, Option.some.inj hfile]
        · cases hfile
  · rintro ⟨directory, parent, entries, name, node, hdirectory, hentry, hfile⟩
    refine ⟨.directory parent entries, ?_, List.mem_filterMap.mpr ⟨(name, node), hentry, ?_⟩⟩
    · exact Array.mem_toList_iff.mpr (Array.mem_of_getElem? hdirectory)
    · simp only [hfile]

/-- Only the file that a new name is for can be newly named. -/
theorem mem_named_of_addEntry {added : Node} {serial : Nat} (hdirectory : d.IsDirectory directory)
    (hadded : ∀ parent entries, added = .directory parent entries → entries = [])
    (h : serial ∈ (d.addEntry directory name added).named) :
    serial ∈ d.named ∨ added = .file serial := by
  obtain ⟨other, parent, entries, step, node, hother, hentry, hfile⟩ := mem_named.mp h
  rcases addEntry_cases hdirectory hfile with ⟨-, rfl⟩ | hfile | ⟨_, _, -, heq⟩
  · exact Or.inr rfl
  · refine Or.inl (mem_named.mpr ?_)
    rcases addEntry_cases hdirectory hother with ⟨-, hkind⟩ | hother | ⟨parent', entries', hold, heq⟩
    · rw [hadded _ _ hkind.symm] at hentry
      cases hentry
    · exact ⟨other, parent, entries, step, node, hother, hentry, hfile⟩
    · cases heq
      rcases List.mem_cons.mp hentry with heq | hentry
      · cases heq
        exact absurd (Array.getElem?_eq_some_iff.mp hfile).1 (Nat.lt_irrefl _)
      · exact ⟨other, _, _, step, node, hold, hentry, hfile⟩
  · cases heq

theorem mem_named_of_removeEntry {serial : Nat} (h : serial ∈ (d.removeEntry directory name).named) :
    serial ∈ d.named := by
  obtain ⟨other, parent, entries, step, node, hother, hentry, hfile⟩ := mem_named.mp h
  rcases removeEntry_cases hfile with hfile | ⟨_, _, -, heq⟩
  · refine mem_named.mpr ?_
    rcases removeEntry_cases hother with hother | ⟨parent', entries', hold, heq⟩
    · exact ⟨other, parent, entries, step, node, hother, hentry, hfile⟩
    · cases heq
      exact ⟨other, _, _, step, node, hold, (List.mem_filter.mp hentry).1, hfile⟩
  · cases heq

end Disk

end MappedQueue
