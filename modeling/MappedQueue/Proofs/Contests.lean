import MappedQueue.Proofs.Aftermaths
import MappedQueue.Proofs.QueuePlaces
import MappedQueue.Proofs.Visits

/-!
# Contests for a name

Any number of threads open one queue, make it if they may, or attach to it. At most one file
is in the making or made, and the path of the queue leads to it. Whoever opens it meanwhile sees
it as it is: without length, without tag, or finished.
-/

namespace MappedQueue

variable {directory name : String} {s : Sizing} {look : Look} {q : Shared} {c : Account}

/-- What has been seen of a new file is what there is of it, but for a length or a tag that it
had not got yet. -/
structure Look.Matches (look : Look) (q : Shared) : Prop where
  length {n : Nat} (h : look.length = some n) : n = 0 ∨ n = q.region.size
  tag {value : Nat} (h : look.tag = some value) :
    value = 0 ∨ value = Layout.validTag ∧ ∃ s, Sizing.Valid s ∧ Fresh s q
  capacity {n : Nat} (h : look.capacity = some n) :
    look.tag = some Layout.validTag ∧ n = q.region.read .capacity
  messageSize {n : Nat} (h : look.messageSize = some n) :
    look.tag = some Layout.validTag ∧ n = q.region.read .messageSize

theorem Fresh.reads (h : Fresh s q) : q.region.size = s.fileSize ∧
    q.region.read .tag = Layout.validTag ∧ q.region.read .capacity = s.capacity ∧
      q.region.read .messageSize = s.messageSize := by
  obtain ⟨used, free, harranged, -⟩ := h.represents
  exact ⟨harranged.size_eq, harranged.tag_eq, harranged.capacity_eq, harranged.messageSize_eq⟩

namespace Look.Matches

theorem start (file : Option Nat) (q : Shared) : Look.Matches { file } q where
  length h := nomatch h
  tag h := nomatch h
  capacity h := nomatch h
  messageSize h := nomatch h

/-- Whoever has seen the tag has seen a finished queue. -/
theorem fresh (h : look.Matches q) (htag : look.tag = some Layout.validTag) :
    ∃ s, Sizing.Valid s ∧ Fresh s q := by
  refine ((h.tag htag).resolve_left ?_).2
  decide

theorem sizing_eq {s' : Sizing} (h : look.Matches q) (hcapacity : look.capacity = some s.capacity)
    (hmessageSize : look.messageSize = some s.messageSize) (hfresh : Fresh s' q) : s = s' := by
  obtain ⟨-, -, hcapacity', hmessageSize'⟩ := hfresh.reads
  obtain ⟨capacity, messageSize⟩ := s
  obtain ⟨capacity', messageSize'⟩ := s'
  rw [Sizing.mk.injEq]
  exact ⟨((h.capacity hcapacity).2).trans hcapacity',
    ((h.messageSize hmessageSize).2).trans hmessageSize'⟩

theorem shows (h : look.Matches q) (hshows : look.Shows s) : s.Valid ∧ Fresh s q := by
  obtain ⟨htag, hcapacity, hmessageSize, -⟩ := hshows
  obtain ⟨s', hvalid, hfresh⟩ := h.fresh htag
  rw [h.sizing_eq hcapacity hmessageSize hfresh]
  exact ⟨hvalid, hfresh⟩

/-- Nobody takes a new file for something else. -/
theorem not_spoilt (h : look.Matches q) : ¬ look.Spoilt := by
  rintro ⟨n, value, hlength, hle, htag, hvalue, hsizing⟩
  have hvalid : value = Layout.validTag := ((h.tag htag).resolve_left hvalue).1
  subst hvalid
  obtain ⟨s, hcapacity, hmessageSize, hsize⟩ := hsizing rfl
  obtain ⟨s', hs', hfresh⟩ := h.fresh htag
  cases h.sizing_eq hcapacity hmessageSize hfresh
  have hheader : Layout.headerSize ≠ 0 := by decide
  have hn : n = s.fileSize := ((h.length hlength).resolve_left (by omega)).trans hfresh.reads.1
  exact hsize (Sizing.fileSize?_eq_some.mpr ⟨hs', hn⟩)

/-- What has been seen stays true while the maker of the file goes on. -/
theorem revised {draft draft' : Draft} (h : look.Matches { region := draft.region })
    (hrevises : Revises s draft draft') (hright : draft.Right s) :
    look.Matches { region := draft'.region } := by
  have hzero : draft.region.read .tag = 0 := by
    obtain ⟨r, stage⟩ := draft
    cases stage with
    | raw => exact hright.1
    | prepared => exact hright.1
    | published => exact absurd rfl hrevises.unpublished
  -- Nobody has seen a tag yet.
  have htag : ∀ {value}, look.tag = some value → value = 0 := by
    intro value hvalue
    refine (h.tag hvalue).resolve_right ?_
    rintro ⟨-, s', -, hfresh⟩
    cases hzero.symm.trans hfresh.reads.2.1
  have hnone : look.tag ≠ some Layout.validTag := fun hvalue => by
    cases htag hvalue
  refine ⟨fun hn => ?_, fun hvalue => Or.inl (htag hvalue), fun hn => absurd (h.capacity hn).1 hnone,
    fun hn => absurd (h.messageSize hn).1 hnone⟩
  rcases h.length hn with hn | hn
  · exact Or.inl hn
  · rcases hrevises.size with hempty | hsame
    · exact Or.inl (hn.trans hempty)
    · exact Or.inr (hn.trans hsame.symm)

end Look.Matches

namespace Account

theorem revise_draft_ne (c : Account) (stage : Stage) (change : Region → Region) :
    (c.revise stage change).draft ≠ none ↔ c.draft ≠ none := by
  simp only [revise, ne_eq, Option.map_eq_none_iff]

theorem file_read (look : Look) (field : Field) (value : Nat) : (look.read field value).file = look.file := by
  unfold Look.read
  split
  · rfl
  · split <;> rfl

/-- What an account and the hands of a thread have to do with each other. -/
structure Agrees (c : Account) (hands : Hands) : Prop where
  made (h : c.draft ≠ none) : hands.made = true
  found {file : Nat} (h : c.look.file = some file) : hands.found = some file

theorem Agrees.after {hands : Hands} (h : c.Agrees hands) (deed : Deed) :
    (c.after deed).Agrees (hands.after deed) := by
  obtain ⟨operation, outcome⟩ := deed
  cases operation with
  | makeDirectories path => cases outcome <;> exact ⟨h.made, h.found⟩
  | createFile path mode =>
    cases outcome with
    | error error => exact h
    | ok file => exact ⟨fun _ => rfl, fun hfile => nomatch hfile⟩
  | openFile path =>
    cases outcome with
    | error error => exact ⟨h.made, fun hfile => nomatch hfile⟩
    | ok file => exact ⟨fun hdraft => absurd rfl hdraft, id⟩
  | closeFile file => exact ⟨h.made, h.found⟩
  | removeFile path => exact ⟨fun hdraft => absurd rfl hdraft, h.found⟩
  | fileLength file => exact ⟨h.made, h.found⟩
  | setFileLength file length =>
    cases outcome with
    | error error => exact h
    | ok u => exact ⟨fun hdraft => h.made ((c.revise_draft_ne ..).mp hdraft), h.found⟩
  | map file length => cases outcome <;> exact ⟨h.made, h.found⟩
  | unmap mapping => exact ⟨h.made, h.found⟩
  | load mapping field =>
    refine ⟨h.made, fun hfile => h.found ?_⟩
    rw [← file_read c.look field outcome]
    exact hfile
  | store mapping field value =>
    exact ⟨fun hdraft => h.made ((c.revise_draft_ne ..).mp hdraft), h.found⟩
  | fetch mapping offset count => exact h
  | put mapping offset bytes => exact h
  | prepareLock mapping =>
    cases outcome with
    | error error => exact h
    | ok u =>
      have hdraft := c.revise_draft_ne .prepared
        (·.setSlice Layout.lockOffset (Region.zeroBytes Layout.lockSize))
      exact ⟨fun hrevised => h.made (hdraft.mp hrevised), h.found⟩
  | pause => exact h

end Account

namespace Party

variable {a b : Party} {deed : Deed} {phase : Phase}

/-- What the operations of a thread come to, if they are those of an opening. -/
def account (a : Party) : Account := a.past.foldr (fun deed c => c.after deed) {}

@[simp] theorem account_next : (a.next deed phase).account = a.account.after deed := rfl

theorem agrees (a : Party) : a.account.Agrees a.hands := by
  unfold account hands
  induction a.past with
  | nil => exact ⟨fun hdraft => absurd rfl hdraft, fun hfile => nomatch hfile⟩
  | cons deed past ih => exact ih.after deed

/-- A thread is to open the queue of a name or to attach to it, and what it has yet to do is in
order. -/
def Follows (directory name : String) (a : Party) : Prop :=
  a.plan.Seeks directory name ∧ match a.phase with
  | .busy rest => rest.Obeys (Account.rules directory name a.plan.sizing)
      (fun c outcome => c.Ends a.plan outcome) a.account
  | .holding store _ => a.account.Ends a.plan (.ok (some store))
  | .gone => False

/-- A thread has made a file that is there, as far as it has come with it. -/
structure Keeps (directory name : String) (old : Nat) (d : Disk) (a : Party) (draft : Draft)
    (file : Nat) : Prop where
  found : a.hands.found = some file
  recent : old ≤ file
  content : d.shared file = { region := draft.region }
  leads : d.Leads directory name file
  right : draft.Right a.plan.sizing
  valid : a.plan.sizing.Valid

end Party

/-- What holds of a disk and of threads that contest for a name since there were `old` files. -/
structure Contested (directory name : String) (old : Nat) (d : Disk) (parties : List Party) : Prop where
  grown : old ≤ d.files.size
  follows {i : Nat} {a : Party} (ha : parties[i]? = some a) : a.Follows directory name
  housed {i : Nat} {a : Party} (ha : parties[i]? = some a) (h : a.account.housed = true) :
    d.Houses directory name
  placed : d.files.size = old ∨ ∃ place, d.Stands directory name old place
  kept {i : Nat} {a : Party} {draft : Draft} (ha : parties[i]? = some a)
    (hdraft : a.account.draft = some draft) : ∃ file, a.Keeps directory name old d draft file
  seen {i file : Nat} {a : Party} (ha : parties[i]? = some a) (hlook : a.account.look.file = some file)
    (hrecent : old ≤ file) : a.account.look.Matches (d.shared file)
  /-- A new file has no tag, or whoever has made it has finished it. -/
  contents {file : Nat} (hrecent : old ≤ file) (hlt : file < d.files.size) :
    (d.shared file).region.read .tag = 0 ∨ ∃ (i : Nat) (a : Party) (r : Region),
      parties[i]? = some a ∧ a.hands.found = some file ∧ a.account.draft = some ⟨r, .published⟩

namespace Contested

variable {old i j : Nat} {d d' : Disk} {M : Machine} {a b : Party} {draft draft' : Draft}
  {parties : List Party}

/-- At most one thread has made a file that is there. -/
theorem sole (hc : Contested directory name old M.disk M.parties) (hs : M.Sound)
    (ha : M.parties[i]? = some a) (hb : M.parties[j]? = some b)
    (hdraft : a.account.draft = some draft) (hdraft' : b.account.draft = some draft') : i = j := by
  obtain ⟨file, hkeeps⟩ := hc.kept ha hdraft
  obtain ⟨file', hkeeps'⟩ := hc.kept hb hdraft'
  have hfile := hkeeps.leads.unique hkeeps'.leads
  refine hs.makers ha hb ⟨a.agrees.made ?_, b.agrees.made ?_⟩ ?_
  · rw [hdraft]
    exact Option.some_ne_none draft
  · rw [hdraft']
    exact Option.some_ne_none draft'
  · rw [hkeeps.found, hkeeps'.found, hfile]

/-- One thread goes on, and what it does to the disk leaves the others what they have. -/
theorem of_set (hc : Contested directory name old d parties) (hgrown : old ≤ d'.files.size)
    (hfollows : b.Follows directory name)
    (hhouses : d.Houses directory name → d'.Houses directory name)
    (hhoused : b.account.housed = true → d'.Houses directory name)
    (hplaced : d'.files.size = old ∨ ∃ place, d'.Stands directory name old place)
    (hkept : ∀ {draft : Draft}, b.account.draft = some draft →
      ∃ file, b.Keeps directory name old d' draft file)
    (hkepts : ∀ {j : Nat} {a : Party} {draft : Draft}, j ≠ i → parties[j]? = some a →
      a.account.draft = some draft → ∃ file, a.Keeps directory name old d' draft file)
    (hseen : ∀ {file : Nat}, b.account.look.file = some file → old ≤ file →
      b.account.look.Matches (d'.shared file))
    (hseens : ∀ {j file : Nat} {a : Party}, parties[j]? = some a → a.account.look.file = some file →
      old ≤ file → a.account.look.Matches (d'.shared file))
    (hcontents : ∀ {file : Nat}, old ≤ file → file < d'.files.size →
      (d'.shared file).region.read .tag = 0 ∨ ∃ (j : Nat) (a : Party) (r : Region),
        (parties.set i b)[j]? = some a ∧ a.hands.found = some file ∧
          a.account.draft = some ⟨r, .published⟩) :
    Contested directory name old d' (parties.set i b) := by
  constructor
  case grown => exact hgrown
  case placed => exact hplaced
  case contents => exact hcontents
  case follows =>
    intro j a ha
    rcases Machine.getElem?_set_cases ha with ⟨-, rfl⟩ | ⟨-, ha⟩
    · exact hfollows
    · exact hc.follows ha
  case housed =>
    intro j a ha h
    rcases Machine.getElem?_set_cases ha with ⟨-, rfl⟩ | ⟨-, ha⟩
    · exact hhoused h
    · exact hhouses (hc.housed ha h)
  case kept =>
    intro j a draft ha hdraft
    rcases Machine.getElem?_set_cases ha with ⟨-, rfl⟩ | ⟨hne, ha⟩
    · exact hkept hdraft
    · exact hkepts hne ha hdraft
  case seen =>
    intro j file a ha hlook hrecent
    rcases Machine.getElem?_set_cases ha with ⟨-, rfl⟩ | ⟨-, ha⟩
    · exact hseen hlook hrecent
    · exact hseens ha hlook hrecent

/-- The disk stays, and one thread has looked at a file or given up its own. -/
theorem unmoved (hc : Contested directory name old d parties) (ha : parties[i]? = some a)
    (hfollows : b.Follows directory name) (hplan : b.plan = a.plan)
    (hhoused : b.account.housed = true → d.Houses directory name)
    (hdraft : (b.account.draft = a.account.draft ∧ b.hands.found = a.hands.found) ∨
      (b.account.draft = none ∧ ∀ r, a.account.draft ≠ some ⟨r, .published⟩))
    (hseen : ∀ file, b.account.look.file = some file → old ≤ file →
      b.account.look.Matches (d.shared file)) :
    Contested directory name old d (parties.set i b) := by
  refine hc.of_set hc.grown hfollows id hhoused hc.placed (fun hd => ?_) (fun _ hb hd => hc.kept hb hd)
    (fun hlook => hseen _ hlook) hc.seen fun hrecent hlt => ?_
  · rcases hdraft with ⟨hsame, hfound⟩ | ⟨hnone, -⟩
    · obtain ⟨file, hkeeps⟩ := hc.kept ha (hsame.symm.trans hd)
      refine ⟨file, hfound.trans hkeeps.found, hkeeps.recent, hkeeps.content, hkeeps.leads, ?_, ?_⟩
      · rw [hplan]
        exact hkeeps.right
      · rw [hplan]
        exact hkeeps.valid
    · cases hnone.symm.trans hd
  · refine (hc.contents hrecent hlt).imp_right ?_
    rintro ⟨j, a', r, ha', hfound', hpublished⟩
    by_cases hj : i = j
    · subst hj
      cases ha.symm.trans ha'
      rcases hdraft with ⟨hsame, hfound⟩ | ⟨-, hnot⟩
      · exact ⟨i, b, r, Machine.getElem?_set_of ha _, hfound.trans hfound', hsame.trans hpublished⟩
      · exact absurd hpublished (hnot r)
    · exact ⟨j, a', r, (List.getElem?_set_ne hj).trans ha', hfound', hpublished⟩

section Steps

variable {deed : Deed} {phase : Phase} {file : Nat}

/-- As long as nothing has been made, no thread has or has seen a new file. -/
theorem untouched (hc : Contested directory name old M.disk M.parties) (hs : M.Sound)
    (hsize : M.disk.files.size = old) (ha : M.parties[i]? = some a) :
    a.account.draft = none ∧ ∀ file, a.hands.found = some file → ¬ old ≤ file := by
  have hlt : ∀ file, a.hands.found = some file → ¬ old ≤ file := by
    intro file hfound hle
    have hlt : file < M.disk.files.size := (hs.settled ha).held.found_lt file hfound
    omega
  refine ⟨?_, hlt⟩
  cases hdraft : a.account.draft with
  | none => rfl
  | some draft =>
    obtain ⟨file, hkeeps⟩ := hc.kept ha hdraft
    exact absurd hkeeps.recent (hlt file hkeeps.found)

/-- The directory of the queue is made, or is there. -/
theorem housing (hc : Contested directory name old M.disk M.parties) (hs : M.Sound)
    (ha : M.parties[i]? = some a) {path : Path} (hname : Name.validate name = .ok ())
    (hpath : Path.ofString directory = .ok path)
    (hfollows : (a.next ⟨.makeDirectories directory, (M.disk.makeDirectories path).1⟩ phase).Follows
      directory name) :
    Contested directory name old (M.disk.makeDirectories path).2 (M.parties.set i
      (a.next ⟨.makeDirectories directory, (M.disk.makeDirectories path).1⟩ phase)) := by
  obtain ⟨hwidens, hhas⟩ := Disk.makeDirectories_widens hs.formed path
  have hdraft : ∀ outcome, (a.account.after ⟨.makeDirectories directory, outcome⟩).draft =
      a.account.draft ∧ (a.account.after ⟨.makeDirectories directory, outcome⟩).look =
        a.account.look := by
    intro outcome
    cases outcome <;> exact ⟨rfl, rfl⟩
  rcases hc.placed with hsize | ⟨place, hstands⟩
  · have hkeep : M.disk.Houses directory name →
        (M.disk.makeDirectories path).2.Houses directory name := fun hhouses =>
      hhouses.of_isDirectory fun _ => hwidens.isDirectory hs.formed
    have hsize' : (M.disk.makeDirectories path).2.files.size = old := by
      rw [hwidens.files_eq]
      exact hsize
    -- Nobody has a new file, nor has anybody seen one.
    have hnobody : ∀ {j : Nat} {b : Party} {draft : Draft}, M.parties[j]? = some b →
        b.account.draft ≠ some draft := fun hb hd => by
      cases (hc.untouched hs hsize hb).1.symm.trans hd
    have hunseen : ∀ {j file : Nat} {b : Party}, M.parties[j]? = some b →
        b.account.look.file = some file → ¬ old ≤ file := fun hb hlook =>
      (hc.untouched hs hsize hb).2 _ ((Party.agrees _).found hlook)
    obtain ⟨hsame, hlooks⟩ := hdraft (M.disk.makeDirectories path).1
    refine hc.of_set (Nat.le_of_eq hsize'.symm) hfollows hkeep (fun hh => ?_) (Or.inl hsize')
      (fun hd => absurd (hsame.symm.trans hd) (hnobody ha)) (fun _ hb hd => absurd hd (hnobody hb))
      (fun hlook hrecent => ?_) (fun hb hlook hrecent => absurd hrecent (hunseen hb hlook))
      fun hrecent hlt => ?_
    · cases hmade : (M.disk.makeDirectories path).1 with
      | ok u => exact ⟨hname, path, hpath, hhas hmade⟩
      | error error =>
        rw [hmade] at hh
        exact hkeep (hc.housed ha hh)
    · exact absurd hrecent (hunseen ha ((congrArg Look.file hlooks).symm.trans hlook))
    · omega
  · -- There is nothing to be made.
    rw [hstands.makeDirectories_eq hpath] at hfollows ⊢
    exact hc.unmoved ha hfollows rfl (fun _ => hstands.houses) (Or.inl ⟨rfl, rfl⟩)
      fun _ hlook hrecent => (hc.seen ha hlook hrecent : a.account.look.Matches _)

/-- Where a file can be made there is none. -/
theorem unmade (hc : Contested directory name old M.disk M.parties) (hs : M.Sound) {path : Path}
    {mode identity serial : Nat} (hpath : Path.ofString (Name.storePath directory name) = .ok path)
    (hcreate : M.disk.createFile path mode identity = .ok (serial, d'))
    (hb : M.parties[j]? = some b) : b.account.draft = none := by
  rcases hc.placed with hsize | ⟨place, hstands⟩
  · exact (hc.untouched hs hsize hb).1
  · cases hdraft : b.account.draft with
    | none => rfl
    | some draft =>
      obtain ⟨file, hkeeps⟩ := hc.kept hb hdraft
      obtain ⟨node, hentry, -⟩ := hstands.entry_of_leads hkeeps.leads
      rw [hstands.createFile_eq hpath hentry] at hcreate
      cases hcreate

/-- A file is made, and there is no other. -/
theorem making (hc : Contested directory name old M.disk M.parties) (hs : M.Sound)
    (ha : M.parties[i]? = some a) {path : Path} {mode identity serial : Nat}
    (hpath : Path.ofString (Name.storePath directory name) = .ok path)
    (hcreate : M.disk.createFile path mode identity = .ok (serial, d'))
    (hhoused : a.account.housed = true) (hvalid : a.plan.sizing.Valid)
    (hfollows : (a.next ⟨.createFile (Name.storePath directory name) mode, .ok serial⟩ phase).Follows
      directory name) :
    Contested directory name old d' (M.parties.set i
      (a.next ⟨.createFile (Name.storePath directory name) mode, .ok serial⟩ phase)) := by
  have hnone : ∀ {j : Nat} {b : Party}, M.parties[j]? = some b → b.account.draft = none :=
    hc.unmade hs hpath hcreate
  have hold : old ≤ serial := by
    rw [(Disk.createFile_ok hcreate).1]
    exact hc.grown
  obtain ⟨place, hstands, hbare, hkeeps, hleads⟩ := Disk.stands_of_createFile hs.formed
    (hc.housed ha hhoused) hpath hcreate hold
  obtain ⟨rfl, hfiles⟩ := Disk.createFile_ok hcreate
  have hhouses : M.disk.Houses directory name → d'.Houses directory name := fun h =>
    h.of_isDirectory fun _ => Disk.isDirectory_keeps hs.formed hkeeps hbare hstands.bare.direct
  have hshared := Disk.shared_push hfiles
  have hnew : d'.shared M.disk.files.size = { region := Region.zeros 0 } := by
    simp only [Disk.shared, hfiles, Array.getElem?_push_size]
  have hsize : d'.files.size = M.disk.files.size + 1 := by
    rw [hfiles, Array.size_push]
  refine hc.of_set ?_ hfollows hhouses (fun _ => hhouses (hc.housed ha hhoused))
    (Or.inr ⟨place, hstands⟩) (fun hd => ?_) (fun _ hb hd => ?_)
    (fun hlook => by cases hlook) (fun hb hlook hrecent => ?_) fun {file} hrecent hlt => Or.inl ?_
  · have := hc.grown
    omega
  · cases hd
    exact ⟨_, rfl, hold, hnew, hleads, ⟨rfl, Or.inl rfl⟩, hvalid⟩
  · cases (hnone hb).symm.trans hd
  · rw [hshared]
    exact hc.seen hb hlook hrecent
  · by_cases hfile : file = M.disk.files.size
    · rw [hfile, hnew]
      rfl
    · rw [hshared]
      refine (hc.contents hrecent (by omega)).resolve_right ?_
      rintro ⟨j, b, r, hb, -, hpublished⟩
      cases (hnone hb).symm.trans hpublished

/-- The maker of a file goes on with it. -/
theorem revising (hc : Contested directory name old M.disk M.parties) (hs : M.Sound)
    (ha : M.parties[i]? = some a)
    (hhands : ∀ hands : Hands, (hands.after deed).found = hands.found)
    (hfound : a.hands.found = some file) (hdraft : a.account.draft = some draft)
    (hafter : a.account.after deed = { a.account with draft := some draft' })
    (hrevises : Revises a.plan.sizing draft draft') (hnodes : d'.nodes = M.disk.nodes)
    (hsize : d'.files.size = M.disk.files.size)
    (hself : M.disk.shared file = { region := draft.region } →
      d'.shared file = { region := draft'.region })
    (hothers : ∀ other ≠ file, d'.shared other = M.disk.shared other)
    (hfollows : (a.next deed phase).Follows directory name) :
    Contested directory name old d' (M.parties.set i (a.next deed phase)) := by
  obtain ⟨file', hkeeps⟩ := hc.kept ha hdraft
  cases hfound.symm.trans hkeeps.found
  have hnew := hself hkeeps.content
  have hright := hrevises.right hkeeps.right
  have haccount : (a.next deed phase).account = { a.account with draft := some draft' } := hafter
  have hseen : ∀ {j other : Nat} {b : Party}, M.parties[j]? = some b →
      b.account.look.file = some other → old ≤ other → b.account.look.Matches (d'.shared other) := by
    intro j other b hb hlook hrecent
    have hmatches := hc.seen hb hlook hrecent
    by_cases hother : other = file
    · rw [hother, hkeeps.content] at hmatches
      rw [hother, hnew]
      exact hmatches.revised hrevises hkeeps.right
    · rw [hothers other hother]
      exact hmatches
  refine hc.of_set (hsize ▸ hc.grown) hfollows (·.congr hnodes) (fun hh => ?_) ?_ (fun hd => ?_)
    (fun hne hb hd => absurd (hc.sole hs hb ha hd hdraft) hne) (fun hlook hrecent => ?_) hseen
    fun {other} hrecent hlt => ?_
  · rw [haccount] at hh
    exact (hc.housed ha hh).congr hnodes
  · rcases hc.placed with heq | ⟨place, hstands⟩
    · exact Or.inl (hsize.trans heq)
    · exact Or.inr ⟨place, hstands.congr hnodes⟩
  · rw [haccount] at hd
    cases hd
    exact ⟨file, (hhands a.hands).trans hfound, hkeeps.recent, hnew, hkeeps.leads.congr hnodes,
      hright, hkeeps.valid⟩
  · rw [haccount] at hlook ⊢
    exact hseen ha hlook hrecent
  · by_cases hother : other = file
    · rw [hother, hnew]
      obtain ⟨r, stage⟩ := draft'
      cases stage with
      | raw => exact Or.inl hright.1
      | prepared => exact Or.inl hright.1
      | published =>
        exact Or.inr ⟨i, _, r, Machine.getElem?_set_of ha _, (hhands a.hands).trans hfound,
          congrArg Account.draft haccount⟩
    · rw [hothers other hother]
      refine (hc.contents hrecent (hsize ▸ hlt)).imp_right ?_
      rintro ⟨j, b, r, hb, hfound', hpublished⟩
      have hj : i ≠ j := by
        rintro rfl
        cases ha.symm.trans hb
        exact hother (Option.some.inj (hfound'.symm.trans hfound))
      exact ⟨j, b, r, (List.getElem?_set_ne hj).trans hb, hfound', hpublished⟩

/-- The maker of a file removes it. -/
theorem removing (hc : Contested directory name old M.disk M.parties) (hs : M.Sound)
    (ha : M.parties[i]? = some a) {path : Path} {r : Region} {outcome : Except SystemError Unit}
    (hpath : Path.ofString (Name.storePath directory name) = .ok path)
    (hunlink : M.disk.unlink path = .ok d') (hdraft : a.account.draft = some ⟨r, .raw⟩)
    (hfollows : (a.next ⟨.removeFile (Name.storePath directory name), outcome⟩ phase).Follows
      directory name) :
    Contested directory name old d' (M.parties.set i
      (a.next ⟨.removeFile (Name.storePath directory name), outcome⟩ phase)) := by
  obtain ⟨place, hstands⟩ := hc.placed.resolve_left fun hsize => by
    cases (hc.untouched hs hsize ha).1.symm.trans hdraft
  obtain ⟨hstands', hkeeps, hfiles⟩ := hstands.of_unlink hs.formed hpath hunlink
  have hhouses : M.disk.Houses directory name → d'.Houses directory name := fun h =>
    h.of_isDirectory fun _ => Disk.isDirectory_keeps hs.formed hkeeps hstands.bare hstands'.bare.direct
  have hshared := Disk.shared_of_files hfiles
  have hsize : d'.files.size = M.disk.files.size := congrArg Array.size hfiles
  have hseen : ∀ {j other : Nat} {b : Party}, M.parties[j]? = some b →
      b.account.look.file = some other → old ≤ other → b.account.look.Matches (d'.shared other) := by
    intro j other b hb hlook hrecent
    rw [hshared]
    exact hc.seen hb hlook hrecent
  refine hc.of_set (hsize ▸ hc.grown) hfollows hhouses (fun hh => hhouses (hc.housed ha hh))
    (Or.inr ⟨place, hstands'⟩) (fun hd => nomatch hd)
    (fun hne hb hd => absurd (hc.sole hs hb ha hd hdraft) hne) (fun hlook hrecent => ?_) hseen
    fun hrecent hlt => Or.inl ?_
  · exact (hseen ha hlook hrecent : a.account.look.Matches _)
  · rw [hshared]
    refine (hc.contents hrecent (hsize ▸ hlt)).resolve_right ?_
    rintro ⟨j, b, r', hb, -, hpublished⟩
    cases hc.sole hs hb ha hpublished hdraft
    cases ha.symm.trans hb
    cases hdraft.symm.trans hpublished

/-- A new file has no tag, or it is a finished queue. -/
theorem finished (hc : Contested directory name old d parties) (hrecent : old ≤ file)
    (hlt : file < d.files.size) : (d.shared file).region.read .tag = 0 ∨
      (d.shared file).region.read .tag = Layout.validTag ∧ ∃ s, Sizing.Valid s ∧ Fresh s (d.shared file) := by
  refine (hc.contents hrecent hlt).imp_right ?_
  rintro ⟨j, b, r, hb, hfound, hpublished⟩
  obtain ⟨file', hkeeps⟩ := hc.kept hb hpublished
  cases hfound.symm.trans hkeeps.found
  have hfresh : Fresh b.plan.sizing (d.shared file) := hkeeps.content ▸ hkeeps.right
  exact ⟨hfresh.reads.2.1, b.plan.sizing, hkeeps.valid, hfresh⟩

theorem measuring (hc : Contested directory name old M.disk M.parties)
    (ha : M.parties[i]? = some a) (hfound : a.hands.found = some file)
    (hfollows : (a.next ⟨.fileLength file, (M.disk.shared file).region.size⟩ phase).Follows
      directory name) :
    Contested directory name old M.disk (M.parties.set i
      (a.next ⟨.fileLength file, (M.disk.shared file).region.size⟩ phase)) := by
  refine hc.unmoved ha hfollows rfl (fun hh => hc.housed ha hh) (Or.inl ⟨rfl, rfl⟩)
    fun file' hlook hrecent => ?_
  have hlook' : a.account.look.file = some file' := hlook
  cases hfound.symm.trans (a.agrees.found hlook')
  have hmatches := hc.seen ha hlook' hrecent
  exact ⟨fun hn => Or.inr (Option.some.inj hn).symm, hmatches.tag, hmatches.capacity,
    hmatches.messageSize⟩

theorem reading (hc : Contested directory name old M.disk M.parties) (hs : M.Sound)
    (ha : M.parties[i]? = some a) {mapping : Nat} {field : Field} (hfound : a.hands.found = some file)
    (hfield : field = .tag ∨ a.account.look.tag = some Layout.validTag ∧
      (field = .capacity ∨ field = .messageSize))
    (hfollows : (a.next ⟨.load mapping field, (M.disk.shared file).region.read field⟩ phase).Follows
      directory name) :
    Contested directory name old M.disk (M.parties.set i
      (a.next ⟨.load mapping field, (M.disk.shared file).region.read field⟩ phase)) := by
  refine hc.unmoved ha hfollows rfl (fun hh => hc.housed ha hh) (Or.inl ⟨rfl, rfl⟩)
    fun file' hlook hrecent => ?_
  have hlook' : a.account.look.file = some file' :=
    (Account.file_read _ field _).symm.trans hlook
  cases hfound.symm.trans (a.agrees.found hlook')
  have hmatches := hc.seen ha hlook' hrecent
  rcases hfield with rfl | ⟨htag, rfl | rfl⟩
  · -- Whoever has read a sizing has read the tag before, and it is there for good.
    have hagain : a.account.look.tag = some Layout.validTag →
        (M.disk.shared file).region.read .tag = Layout.validTag := fun htag => by
      obtain ⟨s, -, hfresh⟩ := hmatches.fresh htag
      exact hfresh.reads.2.1
    refine ⟨hmatches.length, fun hvalue => ?_, fun hn => ?_, fun hn => ?_⟩
    · rw [← Option.some.inj hvalue]
      exact hc.finished hrecent ((hs.settled ha).held.found_lt file hfound)
    · obtain ⟨htag, heq⟩ := hmatches.capacity hn
      exact ⟨congrArg some (hagain htag), heq⟩
    · obtain ⟨htag, heq⟩ := hmatches.messageSize hn
      exact ⟨congrArg some (hagain htag), heq⟩
  · exact ⟨hmatches.length, hmatches.tag, fun hn => ⟨htag, (Option.some.inj hn).symm⟩,
      hmatches.messageSize⟩
  · exact ⟨hmatches.length, hmatches.tag, hmatches.capacity,
      fun hn => ⟨htag, (Option.some.inj hn).symm⟩⟩

/-- Whatever an operation comes to, the contest goes on. -/
theorem operate (hc : Contested directory name old M.disk M.parties) (hs : M.Sound)
    (ha : M.parties[i]? = some a)
    (hleft : Aftermath directory name a.plan.sizing a.hands.found a.account M.disk deed d')
    (hfollows : (a.next deed phase).Follows directory name) :
    Contested directory name old d' (M.parties.set i (a.next deed phase)) := by
  cases hleft with
  | rest hhands hidle =>
    have haccount : (a.next deed phase).account = a.account := hidle
    refine hc.unmoved ha hfollows rfl (fun hh => ?_) (Or.inl ⟨?_, hhands a.hands⟩)
      fun file hlook hrecent => ?_
    · rw [haccount] at hh
      exact hc.housed ha hh
    · rw [haccount]
    · rw [haccount] at hlook ⊢
      exact hc.seen ha hlook hrecent
  | @miss _ look hhands hafter hlook =>
    have haccount : (a.next deed phase).account = { a.account with look } := hafter
    refine hc.unmoved ha hfollows rfl (fun hh => ?_) (Or.inl ⟨?_, hhands a.hands⟩)
      fun file hfile hrecent => ?_
    · rw [haccount] at hh
      exact hc.housed ha hh
    · rw [haccount]
    · rw [haccount] at hfile ⊢
      rcases hlook with hnone | hsame
      · cases hnone.symm.trans hfile
      · have hfile' : a.account.look.file = some file := (congrArg Look.file hsame).symm.trans hfile
        have hmatches := hc.seen ha hfile' hrecent
        rw [hsame]
        exact ⟨hmatches.length, hmatches.tag, hmatches.capacity, hmatches.messageSize⟩
  | found hpath hopen hdraft =>
    refine hc.unmoved ha hfollows rfl (fun hh => hc.housed ha hh) (Or.inr ⟨rfl, fun r hr => ?_⟩)
      fun file hlook hrecent => ?_
    · cases hdraft.symm.trans hr
    · exact .start ..
  | measured hfound hlook => exact hc.measuring ha hfound hfollows
  | read hfound hfield => exact hc.reading hs ha hfound hfield hfollows
  | houses hname hpath => exact hc.housing hs ha hname hpath hfollows
  | makes hpath hcreate hhoused hdraft hvalid =>
    exact hc.making hs ha hpath hcreate hhoused hvalid hfollows
  | revises hhands hfound hdraft hafter hrevises hnodes hsize hself hothers =>
    exact hc.revising hs ha hhands hfound hdraft hafter hrevises hnodes hsize hself hothers hfollows
  | drops hdraft =>
    refine hc.unmoved ha hfollows rfl (fun hh => hc.housed ha hh) (Or.inr ⟨rfl, fun r hr => ?_⟩)
      fun file hlook hrecent => (hc.seen ha hlook hrecent : a.account.look.Matches _)
    cases hdraft.symm.trans hr
  | removes hpath hunlink hdraft => exact hc.removing hs ha hpath hunlink hdraft hfollows

end Steps

/-- While a file is there that a thread has made, the others change nothing, and they find no
other file. -/
theorem others (hc : Contested directory name old M.disk M.parties) (hs : M.Sound)
    (ha : M.parties[i]? = some a) (hdraft : a.account.draft = some draft) {file : Nat}
    (hfound : a.hands.found = some file) (hb : M.parties[j]? = some b) (hne : j ≠ i) {deed : Deed}
    (hleft : Aftermath directory name b.plan.sizing b.hands.found b.account M.disk deed d') :
    d' = M.disk ∧ (∀ path mode serial, deed ≠ ⟨.createFile path mode, .ok serial⟩) ∧
      ∀ path other, deed = ⟨.openFile path, .ok other⟩ → other = file := by
  obtain ⟨file', hkeeps⟩ := hc.kept ha hdraft
  cases hfound.symm.trans hkeeps.found
  have hnone : ∀ {draft'}, b.account.draft ≠ some draft' := fun hdraft' =>
    hne (hc.sole hs hb ha hdraft' hdraft)
  -- An operation that leaves what was found last neither makes nor opens a file.
  have hkeep : (∀ hands : Hands, (hands.after deed).found = hands.found) →
      (∀ path mode serial, deed ≠ ⟨.createFile path mode, .ok serial⟩) ∧
        ∀ path other, deed = ⟨.openFile path, .ok other⟩ → other = file := by
    intro hhands
    have hempty := hhands {}
    refine ⟨fun path mode serial heq => ?_, fun path other heq => ?_⟩
    · rw [heq] at hempty
      cases hempty
    · rw [heq] at hempty
      cases hempty
  cases hleft with
  | rest hhands hidle => exact ⟨rfl, hkeep hhands⟩
  | miss hhands hafter hlook => exact ⟨rfl, hkeep hhands⟩
  | found hpath hopen hdraft' =>
    refine ⟨rfl, fun path mode serial heq => (nomatch heq), fun path other heq => ?_⟩
    cases heq
    exact Disk.Leads.unique ⟨_, hpath, (Disk.openFile_ok hopen).1⟩ hkeeps.leads
  | measured hfound' hlook => exact ⟨rfl, hkeep fun _ => rfl⟩
  | read hfound' hfield => exact ⟨rfl, hkeep fun _ => rfl⟩
  | houses hname hpath =>
    rcases hc.placed with hsize | ⟨place, hstands⟩
    · cases (hc.untouched hs hsize ha).1.symm.trans hdraft
    · refine ⟨?_, hkeep fun _ => rfl⟩
      rw [hstands.makeDirectories_eq hpath]
  | makes hpath hcreate hhoused hdraft' hvalid =>
    cases (hc.unmade hs hpath hcreate ha).symm.trans hdraft
  | revises hhands hfound' hdraft' => exact absurd hdraft' hnone
  | drops hdraft' => exact absurd hdraft' hnone
  | removes hpath hunlink hdraft' => exact absurd hdraft' hnone

/-- Whoever is busy may do what is next, and goes on in order. -/
theorem allows {operation : Operation} {next : operation.Outcome → Script (Except Error (Option Store))}
    (hc : Contested directory name old d parties) (ha : parties[i]? = some a)
    (hphase : a.phase = .busy (.perform operation next)) :
    a.account.Allows directory name a.plan.sizing operation ∧ ∀ outcome,
      (a.next ⟨operation, outcome⟩ (.busy (next outcome))).Follows directory name := by
  obtain ⟨hseeks, hobeys⟩ := hc.follows ha
  rw [hphase] at hobeys
  exact ⟨hobeys.1, fun outcome => ⟨hseeks, hobeys.2 outcome trivial⟩⟩

/-- Another thread comes. -/
theorem begin (hc : Contested directory name old d parties) (process : Nat) {plan : Plan}
    (hseeks : plan.Seeks directory name) :
    Contested directory name old d (parties ++ [⟨process, plan, .busy plan.script, []⟩]) := by
  refine ⟨hc.grown, fun hb => ?_, fun hb hh => ?_, hc.placed, fun hb hd => ?_,
    fun hb hlook hrecent => ?_, fun hrecent hlt => ?_⟩
  · rcases Machine.getElem?_concat_cases hb with hb | rfl
    · exact hc.follows hb
    · exact ⟨hseeks, Plan.accounts_script hseeks⟩
  · rcases Machine.getElem?_concat_cases hb with hb | rfl
    · exact hc.housed hb hh
    · cases hh
  · rcases Machine.getElem?_concat_cases hb with hb | rfl
    · exact hc.kept hb hd
    · cases hd
  · rcases Machine.getElem?_concat_cases hb with hb | rfl
    · exact hc.seen hb hlook hrecent
    · cases hlook
  · refine (hc.contents hrecent hlt).imp_right ?_
    rintro ⟨j, b, r, hb, hfound, hpublished⟩
    exact ⟨j, b, r, Machine.getElem?_concat_of hb _, hfound, hpublished⟩

end Contested

namespace Realm

variable {R R' : Realm} {M : Machine} {i : Nat} {a : Party}

/-- A realm that a contest for a name has come to, on a machine on which nothing has been opened
before. -/
structure Contest (directory name : String) (M : Machine) (R : Realm) : Prop where
  starts : M.Starts
  runs : Runs { machine := M } R
  seeks {i : Nat} {a : Party} (ha : R.machine.parties[i]? = some a) : a.plan.Seeks directory name

/-- A thread does an operation, and its process then has the system before it like this. -/
structure Performs (R : Realm) (i : Nat) (a : Party) (deed : Deed) (h : Host) : Prop where
  party : R.machine.parties[i]? = some a
  next : ∃ next, a.phase = .busy (.perform deed.operation next)
  does : R.machine.Does a.process deed.operation deed.outcome h

/-- Threads keep their plans. -/
theorem Step.plan_eq {shown : List Happening} (hstep : Step R (.plan i) shown R') {j : Nat}
    (ha : R.machine.parties[j]? = some a) :
    ∃ b, R'.machine.parties[j]? = some b ∧ b.plan = a.plan ∧ b.process = a.process := by
  have hset : ∀ {b b' : Party}, R.machine.parties[i]? = some b → b'.plan = b.plan →
      b'.process = b.process → ∃ b'', (R.machine.parties.set i b')[j]? = some b'' ∧
        b''.plan = a.plan ∧ b''.process = a.process := by
    intro b b' hb hplan hprocess
    by_cases hj : i = j
    · subst hj
      cases ha.symm.trans hb
      exact ⟨b', Machine.getElem?_set_of ha b', hplan, hprocess⟩
    · exact ⟨a, (List.getElem?_set_ne hj).trans ha, rfl, rfl⟩
  cases hstep with
  | begin process plan =>
    exact ⟨a, Machine.getElem?_concat_of ha _, rfl, rfl⟩
  | operate hb hphase hdoes => exact hset hb rfl rfl
  | obtain hb hphase hplan hidentity => exact hset hb rfl rfl

theorem Step.contested {shown : List Happening} {old : Nat} (hs : R.Sound)
    (hc : Contested directory name old R.machine.disk R.machine.parties)
    (hstep : Step R (.plan i) shown R')
    (hseeks : ∀ {j : Nat} {b : Party}, R'.machine.parties[j]? = some b → b.plan.Seeks directory name) :
    Contested directory name old R'.machine.disk R'.machine.parties := by
  cases hstep with
  | begin process plan =>
    exact hc.begin process (hseeks (List.getElem?_concat_length (l := R.machine.parties)))
  | @operate i a operation next outcome h ha hphase hdoes =>
    obtain ⟨hallows, hfollows⟩ := hc.allows ha hphase
    cases hdoes with
    | @intro numbering refused hnumbering =>
      have hleft := Aftermath.of_perform hallows (hs.allows ha hphase).1
        (hs.machine.held ha numbering refused)
      exact hc.operate hs.machine ha hleft (hfollows _)
  | @obtain i identity a store directory' name' options ha hphase hplan hidentity =>
    have hfollows := hc.follows ha
    unfold Party.Follows at hfollows
    rw [hphase] at hfollows
    exact hc.unmoved ha hfollows rfl (fun hh => hc.housed ha hh) (Or.inl ⟨rfl, rfl⟩)
      fun _ hlook hrecent => (hc.seen ha hlook hrecent : a.account.look.Matches _)

theorem Contest.reachable (hr : R.Contest directory name M) : R.Reachable :=
  Reachable.runs ⟨M, hr.starts, .refl⟩ hr.runs

/-- What came before in a contest was a contest. -/
theorem Contest.before {shown : List Happening} (hr : R'.Contest directory name M)
    (hruns : Runs { machine := M } R) (hstep : Step R (.plan i) shown R') :
    R.Contest directory name M := by
  refine ⟨hr.starts, hruns, fun ha => ?_⟩
  obtain ⟨b, hb, hplan, -⟩ := hstep.plan_eq ha
  exact hplan ▸ hr.seeks hb

theorem Contest.earlier (hr : R'.Contest directory name M) (hruns : Runs { machine := M } R)
    (hruns' : Runs R R') : R.Contest directory name M := by
  induction hruns' with
  | refl => exact hr
  | tail hbefore hstep ih =>
    obtain ⟨i, shown, hstep⟩ := hstep
    exact ih (hr.before (hruns.trans hbefore) hstep)

/-- Whatever a contest comes to, it goes by its rules. -/
theorem Contest.contested (hr : R.Contest directory name M) :
    Contested directory name M.disk.files.size R.machine.disk R.machine.parties := by
  obtain ⟨hstarts, hruns, hseeks⟩ := hr
  induction hruns with
  | refl =>
    have hnobody : ∀ {j : Nat} {b : Party}, M.parties[j]? ≠ some b := by
      intro j b hb
      rw [hstarts.parties] at hb
      cases hb
    exact ⟨Nat.le_refl _, fun hb => absurd hb hnobody, fun hb => absurd hb hnobody, Or.inl rfl,
      fun hb => absurd hb hnobody, fun hb => absurd hb hnobody,
      fun hrecent hlt => absurd hrecent (Nat.not_le_of_lt hlt)⟩
  | @tail R₁ R₂ hruns hstep ih =>
    obtain ⟨i, shown, hstep⟩ := hstep
    have hr₂ : R₂.Contest directory name M := ⟨hstarts, hruns.tail ⟨i, shown, hstep⟩, hseeks⟩
    have hr₁ := hr₂.before hruns hstep
    exact hstep.contested hr₁.reachable.sound (ih hr₁.seeks) hseeks

/-- What an operation of a contest leaves. -/
theorem Contest.aftermath {deed : Deed} {h : Host} (hr : R.Contest directory name M)
    (hp : R.Performs i a deed h) :
    Aftermath directory name a.plan.sizing a.hands.found a.account R.machine.disk deed h.disk := by
  obtain ⟨operation, outcome⟩ := deed
  obtain ⟨ha, ⟨next, hphase⟩, hdoes⟩ := hp
  have hs := hr.reachable.sound
  replace hdoes : R.machine.Does a.process operation outcome h := hdoes
  cases hdoes with
  | @intro numbering refused hnumbering =>
    exact Aftermath.of_perform (hr.contested.allows ha hphase).1 (hs.allows ha hphase).1
      (hs.machine.held ha numbering refused)

/-- Whoever reads a field of the file that it has found reads what is there. -/
theorem Performs.loads {mapping file : Nat} {field : Field} {value : Nat} {h : Host} (hs : R.Sound)
    (hp : R.Performs i a ⟨.load mapping field, value⟩ h) (hfound : a.hands.found = some file) :
    value = (R.machine.disk.shared file).region.read field := by
  obtain ⟨ha, ⟨next, hphase⟩, hdoes⟩ := hp
  have hmapping := (hs.machine.settled ha).held.mapping_eq mapping (hs.allows ha hphase).1
  cases hfound.symm.trans hmapping
  obtain ⟨numbering, refused, hvalue, -⟩ := hdoes.exists_perform
  rw [Host.perform_eq fun _ => rfl] at hvalue
  exact hvalue

/-- Whoever asks for a length learns that of the file that it has found. -/
theorem Performs.measures {file n : Nat} {h : Host} (hs : R.Sound)
    (hp : R.Performs i a ⟨.fileLength file, n⟩ h) :
    a.hands.found = some file ∧ n = (R.machine.disk.shared file).region.size := by
  obtain ⟨ha, ⟨next, hphase⟩, hdoes⟩ := hp
  refine ⟨(hs.machine.settled ha).held.file_eq file (hs.allows ha hphase).1, ?_⟩
  obtain ⟨numbering, refused, hlength, -⟩ := hdoes.exists_perform
  rw [Host.perform_eq fun _ => rfl] at hlength
  exact hlength

end Realm

end MappedQueue
