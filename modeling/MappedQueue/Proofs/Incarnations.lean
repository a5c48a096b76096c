import MappedQueue.Proofs.Visits

/-!
# Incarnations of a name

A name can be given to one file after another, and several names and links can lead to one
file. What counts for a handle is the file that was opened: handles share a queue just when
they were opened on the same file, each file is a system of its own, and no step of a call
through its handles changes another file or depends on one. Removing a name changes nothing
for the handles there are.
-/

namespace MappedQueue

/-- What an operation may change of a file. -/
def Operation.Touches (h : Host) (file : Nat) : Operation → Prop
  | .setFileLength other _ => other = file
  | .store mapping _ _ | .put mapping _ _ | .prepareLock mapping => h.fileOf mapping = file
  | _ => False

namespace Disk

theorem shared_of_files {d d' : Disk} (h : d'.files = d.files) (file : Nat) :
    d'.shared file = d.shared file := by
  unfold shared
  rw [h]

theorem shared_setLength_of_ne {d : Disk} {serial other length : Nat} (h : other ≠ serial) :
    (d.setLength serial length).shared other = d.shared other := by
  rw [setLength_eq]
  exact (shared_modify _ serial (by intro _; rfl) other).trans (shared_setShared_of_ne h)

/-- A new file is as empty as one that is not there. -/
theorem shared_push {d d' : Disk} {identity mode : Nat} (h : d'.files = d.files.push
    ⟨identity, mode, { region := Region.zeros 0 }⟩) (file : Nat) :
    d'.shared file = d.shared file := by
  simp only [shared, h, Array.getElem?_push]
  by_cases hfile : file = d.files.size
  · rw [if_pos hfile, hfile, Array.getElem?_eq_none (Nat.le_refl _)]
  · rw [if_neg hfile]

end Disk

namespace Host

variable {h : Host} {file : Nat}

theorem shared_access_of_ne {α : Type} {mapping : Nat} (change : Shared → α × Shared)
    (hne : file ≠ h.fileOf mapping) :
    (h.access mapping change).2.disk.shared file = h.disk.shared file := by
  rw [access_eq]
  exact Disk.shared_setShared_of_ne hne

/-- An operation changes no file but the one it is about. -/
theorem shared_carryOut {operation : Operation} (hnot : ¬ operation.Touches h file) :
    (h.carryOut operation).2.disk.shared file = h.disk.shared file := by
  cases operation with
  | makeDirectories path =>
    simp only [carryOut]
    split
    · exact Disk.shared_of_files (Disk.makeAll_files ..) file
    · rfl
  | createFile path mode =>
    rcases h.carryOut_createFile_cases path mode with ⟨p, disk, -, hcreate, hdone⟩ | ⟨error, hdone⟩
    · rw [hdone]
      exact Disk.shared_push (Disk.createFile_ok hcreate).2 file
    · rw [hdone]
  | openFile path =>
    simp only [carryOut]
    split <;> rfl
  | removeFile path =>
    rcases h.carryOut_removeFile_cases path with ⟨p, disk, -, hunlink, hdone⟩ | ⟨error, hdone⟩
    · rw [hdone]
      exact Disk.shared_of_files (Disk.unlink_files hunlink) file
    · rw [hdone]
  | setFileLength other length => exact Disk.shared_setLength_of_ne (Ne.symm hnot)
  | map other length =>
    simp only [carryOut, Host.map]
    split
    · rfl
    · split <;> rfl
  | store mapping field value =>
    exact shared_access_of_ne (fun q => ((), { q with region := q.region.write field value }))
      (Ne.symm hnot)
  | put mapping offset bytes =>
    exact shared_access_of_ne (fun q => ((), { q with region := q.region.setSlice offset bytes }))
      (Ne.symm hnot)
  | prepareLock mapping =>
    rw [carryOut_prepareLock]
    dsimp only
    exact shared_access_of_ne _ (Ne.symm hnot)
  | closeFile other => rfl
  | fileLength other => rfl
  | unmap mapping => rfl
  | load mapping field => rfl
  | fetch mapping offset count => rfl
  | pause => rfl

theorem shared_perform {operation : Operation} (hnot : ¬ operation.Touches h file) :
    (h.perform operation).2.disk.shared file = h.disk.shared file := by
  rcases h.perform_cases operation with ⟨error, outcome, hrefused, hp⟩ | hp
  · rw [hp]
  · rw [hp]
    exact shared_carryOut hnot

end Host

/-- What a thread may do changes only a file that it has made. -/
theorem Hands.Allows.made {hands : Hands} {operation : Operation} {h : Host} {file : Nat}
    (hallows : hands.Allows operation) (hheld : hands.Held h) (ht : operation.Touches h file) :
    hands.made = true ∧ hands.found = some file := by
  cases operation with
  | setFileLength other length =>
    obtain ⟨hfile, hmade⟩ := hallows
    have hother : other = file := ht
    exact ⟨hmade, hother ▸ hheld.file_eq other hfile⟩
  | store mapping field value =>
    have hfile : h.fileOf mapping = file := ht
    exact ⟨hallows.2, hfile ▸ hheld.mapping_eq mapping hallows.1⟩
  | put mapping offset bytes =>
    have hfile : h.fileOf mapping = file := ht
    exact ⟨hallows.2, hfile ▸ hheld.mapping_eq mapping hallows.1⟩
  | prepareLock mapping =>
    have hfile : h.fileOf mapping = file := ht
    exact ⟨hallows.2, hfile ▸ hheld.mapping_eq mapping hallows.1⟩
  | _ => exact absurd ht id

namespace Realm

variable {R R' R₁ R₂ : Realm} {cause : Cause} {shown : List Happening} {i j file other thread : Nat}
  {a b : Party} {store store' : Store} {h h' : Handle} {w : Worker}

/-- The queue in a file, with its users: the handles that were opened on this file, and the
calls through them. -/
def view (R : Realm) (file : Nat) : System where
  shared := R.machine.disk.shared file
  handles i := if R.machine.file? i = some file then R.machine.handle? i else none
  workers thread := (R.workers thread).filter fun w => R.machine.file? w.number = some file

/-- A thread has a handle. -/
structure Holds (R : Realm) (i : Nat) (a : Party) (store : Store) (h : Handle) : Prop where
  party : R.machine.parties[i]? = some a
  phase : a.phase = .holding store h

namespace Holds

theorem handle_eq (hh : R.Holds i a store h) : R.machine.handle? i = some h := by
  simp only [Machine.handle?, hh.party, hh.phase, Option.bind_some]

theorem file_eq (hh : R.Holds i a store h) : R.machine.file? i = a.hands.found := by
  simp only [Machine.file?, hh.party, Option.bind_some]

end Holds

theorem exists_holds (hopen : R.machine.handle? i = some h) : ∃ a store, R.Holds i a store h := by
  unfold Machine.handle? at hopen
  obtain ⟨a, ha, hphase⟩ := Option.bind_eq_some_iff.mp hopen
  split at hphase
  · rename_i store handle hholding
    cases hphase
    exact ⟨a, store, ha, hholding⟩
  · cases hphase

theorem view_handles_eq_some : (R.view file).handles i = some h ↔
    R.machine.file? i = some file ∧ R.machine.handle? i = some h := by
  simp only [view]
  split
  · rename_i hfile
    exact ⟨fun hh => ⟨hfile, hh⟩, fun hh => hh.2⟩
  · rename_i hfile
    exact ⟨fun hh => (nomatch hh), fun hh => absurd hh.1 hfile⟩

theorem view_workers_eq_some : (R.view file).workers thread = some w ↔
    R.workers thread = some w ∧ R.machine.file? w.number = some file := by
  simp only [view, Option.filter_eq_some_iff, decide_eq_true_eq]

/-- What a handle works on is the file that it was opened on. -/
theorem Holds.fileOf_eq (hs : R.Sound) (hh : R.Holds i a store h) (hfound : a.hands.found = some file) :
    (R.machine.host a.process).fileOf store.mapping = file :=
  Option.some.inj ((hs.found hh.party hh.phase).symm.trans hfound)

theorem Holds.shared_eq (hs : R.Sound) (hh : R.Holds i a store h) (hfound : a.hands.found = some file) :
    R.shared a store = (R.view file).shared :=
  congrArg R.machine.disk.shared (hh.fileOf_eq hs hfound)

theorem Holds.write_eq (hs : R.Sound) (hh : R.Holds i a store h) (hfound : a.hands.found = some file)
    (q : Shared) : R.write a store q = R.machine.setShared file q :=
  congrArg (R.machine.setShared · q) (hh.fileOf_eq hs hfound)

theorem Holds.lt (hs : R.Sound) (hh : R.Holds i a store h) (hfound : a.hands.found = some file) :
    file < R.machine.disk.files.size :=
  (hs.machine.settled hh.party).held.found_lt file hfound

/-- The realm after a change to what the users of one file share. -/
def share (R : Realm) (file : Nat) (q : Shared) : Realm :=
  { R with machine := R.machine.setShared file q }

theorem view_share_self {q : Shared} (hlt : file < R.machine.disk.files.size) :
    (R.share file q).view file = { R.view file with shared := q } := by
  unfold view
  congr 1
  exact Disk.shared_setShared hlt

theorem view_share_of_ne {q : Shared} (hne : other ≠ file) :
    (R.share file q).view other = R.view other := by
  unfold view
  congr 1
  exact Disk.shared_setShared_of_ne hne

section Calls

variable {next : Advance}

theorem disk_machineAfter (R : Realm) (w : Worker) (a : Party) (store : Store) (h : Handle)
    (next : Advance) :
    (R.machineAfter w a store h next).disk = (R.write a store next.shared).disk := by
  unfold machineAfter
  dsimp only
  split <;> rfl

theorem file?_machineAfter (ha : R.machine.parties[w.number]? = some a) (j : Nat) :
    (R.machineAfter w a store h next).file? j = R.machine.file? j := by
  obtain ⟨b, hparties, -, -, hfound, -, -⟩ := R.parties_machineAfter w a store h next
  simp only [Machine.file?, hparties]
  by_cases hj : w.number = j
  · subst hj
    rw [Machine.getElem?_set_of ha, ha]
    exact hfound
  · rw [List.getElem?_set_ne hj]

theorem handle?_machineAfter (ha : R.machine.parties[w.number]? = some a) :
    (R.machineAfter w a store h next).handle? =
      Function.update R.machine.handle? w.number (System.handleAfter w h next) := by
  obtain ⟨b, hparties, -, -, -, -, hafter⟩ := R.parties_machineAfter w a store h next
  funext j
  simp only [Machine.handle?, hparties]
  by_cases hj : j = w.number
  · subst hj
    rw [Machine.getElem?_set_of ha, Function.update_self]
    exact hafter
  · rw [List.getElem?_set_ne (Ne.symm hj), Function.update_of_ne hj]
    rfl

/-- Filtering the workers commutes with changing one. -/
theorem filter_update {workers : Nat → Option Worker} {keep : Worker → Bool}
    {worker : Option Worker} :
    (fun t => (Function.update workers thread worker t).filter keep) =
      Function.update (fun t => (workers t).filter keep) thread (worker.filter keep) := by
  funext t
  by_cases ht : t = thread
  · subst ht
    rw [Function.update_self, Function.update_self]
  · rw [Function.update_of_ne ht, Function.update_of_ne ht]

/-- A step of a call is a step of the system in the file of its handle. -/
theorem view_advance (hs : R.Sound) (hh : R.Holds w.number a store h)
    (hfound : a.hands.found = some file) :
    (R.advance thread w a store h next).view file = (R.view file).advance thread w h next := by
  have hfile : R.machine.file? w.number = some file := hh.file_eq.trans hfound
  have hkept : ∀ w', System.onward w next = some w' →
      decide (R.machine.file? w'.number = some file) = true := fun w' hw' => by
    rw [number_onward hw']
    exact decide_eq_true hfile
  unfold view System.advance System.setHandle System.setWorker advance
  dsimp only
  congr 1
  · rw [disk_machineAfter, hh.write_eq hs hfound]
    exact Disk.shared_setShared (hh.lt hs hfound)
  · funext j
    rw [file?_machineAfter hh.party, handle?_machineAfter hh.party]
    by_cases hj : j = w.number
    · rw [hj, if_pos hfile, Function.update_self, Function.update_self]
    · rw [Function.update_of_ne hj, Function.update_of_ne hj]
  · simp only [file?_machineAfter hh.party]
    rw [filter_update]
    congr 1
    cases hw' : System.onward w next with
    | none => rfl
    | some w' => rw [Option.filter_some, if_pos (hkept w' hw')]

/-- And it leaves every other file alone. -/
theorem view_advance_of_ne (hs : R.Sound) (hh : R.Holds w.number a store h)
    (hworker : R.workers thread = some w) (hfound : a.hands.found = some file) (hne : other ≠ file) :
    (R.advance thread w a store h next).view other = R.view other := by
  have hfile : R.machine.file? w.number = some file := hh.file_eq.trans hfound
  have haway : R.machine.file? w.number ≠ some other := by
    rw [hfile]
    exact fun heq => hne (Option.some.inj heq).symm
  unfold view advance
  dsimp only
  congr 1
  · rw [disk_machineAfter, hh.write_eq hs hfound]
    exact Disk.shared_setShared_of_ne hne
  · funext j
    rw [file?_machineAfter hh.party, handle?_machineAfter hh.party]
    by_cases hj : j = w.number
    · rw [hj, if_neg haway, if_neg haway]
    · rw [Function.update_of_ne hj]
  · simp only [file?_machineAfter hh.party]
    rw [filter_update]
    funext t
    by_cases ht : t = thread
    · subst ht
      rw [Function.update_self, hworker, Option.filter_some, if_neg (by simpa using haway)]
      cases hw' : System.onward w next with
      | none => rfl
      | some w' =>
        rw [Option.filter_some, number_onward hw', if_neg (by simpa using haway)]
    · rw [Function.update_of_ne ht]

theorem view_setWorker (R : Realm) (thread : Nat) (worker : Option Worker) (file : Nat) :
    (R.setWorker thread worker).view file = (R.view file).setWorker thread
      (worker.filter fun w => R.machine.file? w.number = some file) := by
  unfold view setWorker System.setWorker
  dsimp only
  rw [filter_update]

theorem view_setWorker_self (hfile : R.machine.file? w.number = some file) :
    (R.setWorker thread (some w)).view file = (R.view file).setWorker thread (some w) := by
  rw [view_setWorker, Option.filter_some, if_pos (decide_eq_true hfile)]

/-- A call that begins or goes on through a handle begins or goes on in its file only. -/
theorem view_setWorker_of_ne (hfile : R.machine.file? w.number = some file) (hne : other ≠ file)
    (hthread : ∀ v, R.workers thread = some v → v.number = w.number) :
    (R.setWorker thread (some w)).view other = R.view other := by
  have haway : ¬ R.machine.file? w.number = some other := by
    rw [hfile]
    exact fun heq => hne (Option.some.inj heq).symm
  have hnone : (R.view other).workers thread = none := by
    cases hv : (R.view other).workers thread with
    | none => rfl
    | some v =>
      obtain ⟨hv, hfile'⟩ := view_workers_eq_some.mp hv
      rw [hthread v hv] at hfile'
      exact absurd hfile' haway
  rw [view_setWorker, Option.filter_some, if_neg (by simpa using haway), System.setWorker, ← hnone,
    Function.update_eq_self]

/-- Whoever has a handle has it on a file. -/
theorem exists_found (hs : R.Sound) (ha : R.machine.parties[i]? = some a)
    (hphase : a.phase = .holding store h) : ∃ file, R.Holds i a store h ∧
      a.hands.found = some file ∧ R.machine.file? i = some file := by
  have hh : R.Holds i a store h := ⟨ha, hphase⟩
  have hfound := hs.found ha hphase
  exact ⟨_, hh, hfound, hh.file_eq.trans hfound⟩

theorem exists_file (hs : R.Sound) (hopen : R.machine.handle? i ≠ none) :
    ∃ a store h file, R.Holds i a store h ∧ a.hands.found = some file ∧
      R.machine.file? i = some file := by
  obtain ⟨h, hh⟩ := Option.ne_none_iff_exists'.mp hopen
  obtain ⟨a, store, hh⟩ := exists_holds hh
  exact ⟨a, store, h, exists_found hs hh.party hh.phase⟩

theorem Holds.expired_eq (hs : R.Sound) (hh : R.Holds w.number a store h)
    (hfound : a.hands.found = some file) (q : Shared) (c : Call) :
    ({ R.setWorker thread (some { w with call := c }) with machine := R.write a store q } : Realm) =
      (R.setWorker thread (some { w with call := c })).share file q := by
  rw [hh.write_eq hs hfound]
  rfl

/-- The end of a slice is one in the file of the handle. -/
theorem Holds.view_expire (hs : R.Sound) (hh : R.Holds w.number a store h)
    (hfound : a.hands.found = some file) (q : Shared) (c : Call) :
    ({ R.setWorker thread (some { w with call := c }) with machine := R.write a store q } : Realm).view
        file =
      { (R.view file).setWorker thread (some { w with call := c }) with shared := q } := by
  have hlt : file < R.machine.disk.files.size := hh.lt hs hfound
  have hfile : R.machine.file? ({ w with call := c } : Worker).number = some file :=
    hh.file_eq.trans hfound
  rw [hh.expired_eq hs hfound, view_share_self (R := R.setWorker thread _) hlt,
    view_setWorker_self hfile]

/-- Whatever is done through a handle is done to the system in the handle's file. -/
theorem Step.through (hs : R.Sound) (hstep : Step R (.call thread i) shown R') :
    ∃ file, R.machine.file? i = some file ∧ System.Step (R.view file) shown (R'.view file) ∧
      ∀ other ≠ file, R'.view other = R.view other := by
  have hsees : ∀ {file t v}, (R.view file).workers t = some v → R.workers t = some v := fun h =>
    (view_workers_eq_some.mp h).1
  cases hstep with
  | @call thread i request buffer hidle hopen hkept hfits =>
    obtain ⟨a, store, h, file, hh, -, hfile⟩ := exists_file hs hopen
    refine ⟨file, hfile, ?_, fun other hne => view_setWorker_of_ne hfile hne fun v hv => ?_⟩
    · rw [view_setWorker_self hfile]
      refine .call ?_ ?_ (fun t w hw => hkept t w (hsees hw)) hfits
      · simp only [view, hidle, Option.filter_none]
      · rw [view_handles_eq_some.mpr ⟨hfile, hh.handle_eq⟩]
        exact Option.some_ne_none h
    · rw [hidle] at hv
      cases hv
  | @leave thread i purpose hidle hopen hunused hpurpose =>
    obtain ⟨a, store, h, file, hh, -, hfile⟩ := exists_file hs hopen
    refine ⟨file, hfile, ?_, fun other hne => view_setWorker_of_ne hfile hne fun v hv => ?_⟩
    · rw [view_setWorker_self (show R.machine.file? (System.withdrawal i purpose).number = _ from hfile)]
      refine .leave ?_ ?_ (fun t w hw => hunused t w (hsees hw)) hpurpose
      · simp only [view, hidle, Option.filter_none]
      · rw [view_handles_eq_some.mpr ⟨hfile, hh.handle_eq⟩]
        exact Option.some_ne_none h
    · rw [hidle] at hv
      cases hv
  | @act thread pick w a store h around next hworker ha hphase hstep =>
    obtain ⟨file, hh, hfound, hfile⟩ := exists_found hs ha hphase
    refine ⟨file, hfile, ?_, fun other hne => view_advance_of_ne hs hh hworker hfound hne⟩
    rw [view_advance hs hh hfound]
    rw [hh.shared_eq hs hfound] at hstep
    exact .act (view_workers_eq_some.mpr ⟨hworker, hfile⟩)
      (view_handles_eq_some.mpr ⟨hfile, hh.handle_eq⟩) hstep
  | @falter thread w a store h error next hworker ha hphase hfalter =>
    obtain ⟨file, hh, hfound, hfile⟩ := exists_found hs ha hphase
    refine ⟨file, hfile, ?_, fun other hne => view_advance_of_ne hs hh hworker hfound hne⟩
    rw [view_advance hs hh hfound]
    rw [hh.shared_eq hs hfound] at hfalter
    exact .falter (view_workers_eq_some.mpr ⟨hworker, hfile⟩)
      (view_handles_eq_some.mpr ⟨hfile, hh.handle_eq⟩) hfalter
  | @expire thread w a store h q c hworker ha hphase hexpire =>
    obtain ⟨file, hh, hfound, hfile⟩ := exists_found hs ha hphase
    rw [hh.shared_eq hs hfound] at hexpire
    refine ⟨file, hfile, ?_, fun other hne => ?_⟩
    · rw [hh.view_expire hs hfound]
      exact .expire (view_workers_eq_some.mpr ⟨hworker, hfile⟩) hexpire
    · rw [hh.expired_eq hs hfound, view_share_of_ne hne]
      refine view_setWorker_of_ne (w := { w with call := c }) hfile hne fun v hv => ?_
      cases hworker.symm.trans hv
      rfl

/-- A handle with which one sees a file can be used wherever this file looks the same, whatever
the other files are like. -/
theorem Holds.of_view (hh : R₁.Holds i a store h) (hfound : a.hands.found = some file)
    (hview : R₂.view file = R₁.view file) :
    ∃ b store', R₂.Holds i b store' h ∧ b.hands.found = some file := by
  have hhandle : (R₂.view file).handles i = some h := by
    rw [hview]
    exact view_handles_eq_some.mpr ⟨hh.file_eq.trans hfound, hh.handle_eq⟩
  obtain ⟨hfile, hopen⟩ := view_handles_eq_some.mp hhandle
  obtain ⟨b, store', hh'⟩ := exists_holds hopen
  exact ⟨b, store', hh', hh'.file_eq.symm.trans hfile⟩

theorem worker_of_view (hworker : R₁.workers thread = some w)
    (hfile : R₁.machine.file? w.number = some file) (hview : R₂.view file = R₁.view file) :
    R₂.workers thread = some w := by
  have hw : (R₂.view file).workers thread = some w := by
    rw [hview]
    exact view_workers_eq_some.mpr ⟨hworker, hfile⟩
  exact (view_workers_eq_some.mp hw).1

/-- What can be done through a handle, and what comes of it, depends on nothing but the handle's
file: it can be done wherever the file and its users are the same, unless the thread is busy
with something else. -/
theorem Step.elsewhere (hs₁ : R₁.Sound) (hs₂ : R₂.Sound) (hstep : Step R₁ (.call thread i) shown R')
    (hfile : R₁.machine.file? i = some file) (hview : R₂.view file = R₁.view file)
    (hidle : R₁.workers thread = none → R₂.workers thread = none) :
    ∃ R₂', Step R₂ (.call thread i) shown R₂' ∧ R₂'.view file = R'.view file := by
  have hfile₂ : ∀ {a store h}, R₁.Holds i a store h → R₂.machine.handle? i ≠ none ∧
      R₂.machine.file? i = some file := fun hh => by
    obtain ⟨b, store', hh', hfound'⟩ := hh.of_view (hh.file_eq.symm.trans hfile) hview
    rw [hh'.handle_eq, hh'.file_eq]
    exact ⟨Option.some_ne_none _, hfound'⟩
  have hback : ∀ {t v}, R₂.workers t = some v → R₂.machine.file? v.number = some file →
      R₁.workers t = some v := fun hv hnumber => worker_of_view hv hnumber hview.symm
  cases hstep with
  | @call thread i request buffer hidle₁ hopen hkept hfits =>
    obtain ⟨a, store, h, _, hh, -, -⟩ := exists_file hs₁ hopen
    obtain ⟨hopen₂, hnumber⟩ := hfile₂ hh
    refine ⟨R₂.setWorker thread (some ⟨i, .request, { request, buffer }⟩),
      .call (hidle hidle₁) hopen₂ (fun t v hv heq => ?_) hfits, ?_⟩
    · exact hkept t v (hback hv (heq ▸ hnumber)) heq
    · rw [view_setWorker_self hnumber, view_setWorker_self hfile, hview]
  | @leave thread i purpose hidle₁ hopen hunused hpurpose =>
    obtain ⟨a, store, h, _, hh, -, -⟩ := exists_file hs₁ hopen
    obtain ⟨hopen₂, hnumber⟩ := hfile₂ hh
    refine ⟨_, .leave (hidle hidle₁) hopen₂ (fun t v hv heq => ?_) hpurpose, ?_⟩
    · exact hunused t v (hback hv (heq ▸ hnumber)) heq
    · rw [view_setWorker_self (show R₂.machine.file? (System.withdrawal i purpose).number = _ from hnumber),
        view_setWorker_self (show R₁.machine.file? (System.withdrawal i purpose).number = _ from hfile),
        hview]
  | @act thread pick w a store h around next hworker ha hphase hstep =>
    have hh : R₁.Holds w.number a store h := ⟨ha, hphase⟩
    have hfound : a.hands.found = some file := hh.file_eq.symm.trans hfile
    obtain ⟨b, store', hh', hfound'⟩ := hh.of_view hfound hview
    rw [hh.shared_eq hs₁ hfound, ← hview, ← hh'.shared_eq hs₂ hfound'] at hstep
    refine ⟨_, .act (worker_of_view hworker hfile hview) hh'.party hh'.phase hstep, ?_⟩
    rw [view_advance hs₁ hh hfound, view_advance hs₂ hh' hfound', hview]
  | @falter thread w a store h error next hworker ha hphase hfalter =>
    have hh : R₁.Holds w.number a store h := ⟨ha, hphase⟩
    have hfound : a.hands.found = some file := hh.file_eq.symm.trans hfile
    obtain ⟨b, store', hh', hfound'⟩ := hh.of_view hfound hview
    rw [hh.shared_eq hs₁ hfound, ← hview, ← hh'.shared_eq hs₂ hfound'] at hfalter
    refine ⟨_, .falter (worker_of_view hworker hfile hview) hh'.party hh'.phase hfalter, ?_⟩
    rw [view_advance hs₁ hh hfound, view_advance hs₂ hh' hfound', hview]
  | @expire thread w a store h q c hworker ha hphase hexpire =>
    have hh : R₁.Holds w.number a store h := ⟨ha, hphase⟩
    have hfound : a.hands.found = some file := hh.file_eq.symm.trans hfile
    obtain ⟨b, store', hh', hfound'⟩ := hh.of_view hfound hview
    rw [hh.shared_eq hs₁ hfound, ← hview, ← hh'.shared_eq hs₂ hfound'] at hexpire
    refine ⟨_, .expire (worker_of_view hworker hfile hview) hh'.party hh'.phase hexpire, ?_⟩
    rw [hh.view_expire hs₁ hfound, hh'.view_expire hs₂ hfound', hview]

end Calls

/-- The machine of a realm has changed for a thread that is busy before and after. -/
structure Occupied (R : Realm) (M : Machine) (i : Nat) : Prop where
  others : ∀ j ≠ i, M.file? j = R.machine.file? j ∧ M.handle? j = R.machine.handle? j
  busy : R.machine.handle? i = none ∧ M.handle? i = none
  unengaged : ∀ t w, R.workers t = some w → w.number ≠ i

/-- The same handles are open on each file, and the same calls go on through them. -/
theorem Occupied.users_eq {M : Machine} (ho : Occupied R M i) (file : Nat) :
    (({ R with machine := M } : Realm).view file).handles = (R.view file).handles ∧
      (({ R with machine := M } : Realm).view file).workers = (R.view file).workers := by
  constructor
  · funext j
    simp only [view]
    by_cases hj : j = i
    · rw [hj, ho.busy.1, ho.busy.2, ite_self, ite_self]
    · rw [(ho.others j hj).1, (ho.others j hj).2]
  · funext t
    simp only [view]
    cases hw : R.workers t with
    | none => rfl
    | some w =>
      rw [Option.filter_some, Option.filter_some, (ho.others _ (ho.unengaged t w hw)).1]

theorem Occupied.view_eq {M : Machine} (ho : Occupied R M i)
    (hshared : M.disk.shared file = R.machine.disk.shared file) :
    ({ R with machine := M } : Realm).view file = R.view file := by
  obtain ⟨hhandles, hworkers⟩ := ho.users_eq file
  unfold view at *
  rw [System.mk.injEq]
  exact ⟨hshared, hhandles, hworkers⟩

theorem unengaged (hs : R.Sound) (ha : R.machine.parties[i]? = some a)
    {rest : Script (Except Error (Option Store))} (hphase : a.phase = .busy rest) :
    ∀ t w, R.workers t = some w → w.number ≠ i := by
  rintro t w hw rfl
  obtain ⟨b, hb, hidle⟩ := hs.engaged hw
  cases ha.symm.trans hb
  exact hidle rest hphase

theorem occupied_after (hs : R.Sound) (ha : R.machine.parties[i]? = some a)
    {rest : Script (Except Error (Option Store))} (hphase : a.phase = .busy rest)
    (rest' : Script (Except Error (Option Store))) (h : Host) (deed : Deed) :
    Occupied R (R.machine.after i a h deed (.busy rest')) i := by
  refine ⟨fun j hj => ?_, ⟨?_, ?_⟩, unengaged hs ha hphase⟩
  · simp only [Machine.file?, Machine.handle?, Machine.after, Machine.setParty, Machine.setHost,
      List.getElem?_set_ne (Ne.symm hj), and_self]
  · simp only [Machine.handle?, ha, Option.bind_some, hphase]
  · have hlt := (List.getElem?_eq_some_iff.mp ha).1
    simp only [Machine.handle?, Machine.after, Machine.setParty, Machine.setHost,
      List.getElem?_set_self hlt, Option.bind_some, Party.next]

theorem occupied_begin (hs : R.Sound) (process : Nat) (plan : Plan) :
    Occupied R (R.machine.begin process plan) R.machine.parties.length := by
  refine ⟨fun j hj => ?_, ⟨?_, ?_⟩, fun t w hw heq => ?_⟩
  · simp only [Machine.file?, Machine.handle?, Machine.begin, List.getElem?_append]
    split
    · exact ⟨rfl, rfl⟩
    · rename_i hge
      rw [List.getElem?_eq_none (by simp only [List.length_singleton]; omega),
        List.getElem?_eq_none (by omega)]
      exact ⟨rfl, rfl⟩
  · simp only [Machine.handle?, List.getElem?_eq_none (Nat.le_refl _), Option.bind_none]
  · simp only [Machine.handle?, Machine.begin, List.getElem?_concat_length, Option.bind_some]
  · obtain ⟨b, hb, -⟩ := hs.engaged hw
    rw [heq, List.getElem?_eq_none (Nat.le_refl _)] at hb
    cases hb

/-- The one file that an operation of a thread may change is one that it has made itself. -/
theorem shared_operate (hs : R.Sound) (ha : R.machine.parties[i]? = some a) {operation : Operation}
    {next : operation.Outcome → Script (Except Error (Option Store))}
    {outcome : operation.Outcome} {h : Host} (hphase : a.phase = .busy (.perform operation next))
    (hdoes : R.machine.Does a.process operation outcome h)
    (hnot : ¬ (a.hands.made = true ∧ a.hands.found = some file)) :
    h.disk.shared file = R.machine.disk.shared file := by
  cases hdoes with
  | @intro numbering refused hnumbering =>
    refine Host.shared_perform fun ht => hnot ?_
    exact (hs.allows ha hphase).1.made (hs.machine.held ha numbering refused) ht

/-- What a thread does to open a queue changes no file but one that it has made itself, and
it takes no handle and no call from anybody. -/
theorem Step.planned (hs : R.Sound) (hstep : Step R (.plan i) shown R') (file : Nat) :
    (R'.view file).workers = (R.view file).workers ∧
      (∀ j h, (R.view file).handles j = some h → (R'.view file).handles j = some h) ∧
      ((∀ a, R.machine.parties[i]? = some a → a.hands.made = true → a.hands.found ≠ some file) →
        (R'.view file).shared = (R.view file).shared) := by
  cases hstep with
  | begin process plan =>
    obtain ⟨hhandles, hworkers⟩ := (occupied_begin hs process plan).users_eq file
    exact ⟨hworkers, fun j h hh => (congrFun hhandles j).trans hh, fun _ => rfl⟩
  | @operate i a operation next outcome h ha hphase hdoes =>
    obtain ⟨hhandles, hworkers⟩ := (occupied_after hs ha hphase (next outcome) h
      ⟨operation, outcome⟩).users_eq file
    refine ⟨hworkers, fun j h hh => (congrFun hhandles j).trans hh, fun hnot => ?_⟩
    exact shared_operate hs ha hphase hdoes fun hmade => hnot a ha hmade.1 hmade.2
  | @obtain i identity a store directory name options ha hphase hplan hidentity =>
    have hlt := (List.getElem?_eq_some_iff.mp ha).1
    generalize Phase.holding store ⟨store.sizing, identity, options.nonblocking⟩ = phase
    have hfile : ∀ j, (R.machine.setPhase i a phase).file? j = R.machine.file? j := fun j => by
      simp only [Machine.file?, Machine.setPhase, Machine.setParty]
      by_cases hj : i = j
      · subst hj
        rw [List.getElem?_set_self hlt, ha]
        rfl
      · rw [List.getElem?_set_ne hj]
    refine ⟨?_, fun j h hh => ?_, fun _ => rfl⟩
    · simp only [view, hfile]
    · -- The thread itself had no handle before.
      obtain ⟨hnumber, hopen⟩ := view_handles_eq_some.mp hh
      have hj : i ≠ j := by
        rintro rfl
        simp only [Machine.handle?, ha, Option.bind_some, hphase] at hopen
        cases hopen
      refine view_handles_eq_some.mpr ⟨(hfile j).trans hnumber, ?_⟩
      simp only [Machine.handle?, Machine.setPhase, Machine.setParty, List.getElem?_set_ne hj]
      exact hopen

/-- Removing a name changes nothing for anybody who uses a file. -/
theorem Step.unlinks (hs : R.Sound) (hstep : Step R (.plan i) shown R')
    (ha' : R'.machine.parties[i]? = some a) {directory name : String}
    (hplan : a.plan = .unlinks directory name) :
    (∀ file, R'.view file = R.view file) ∧ ∀ process,
      (R'.machine.host process).mappings = (R.machine.host process).mappings := by
  cases hstep with
  | begin process plan => exact ⟨fun file => (occupied_begin hs process plan).view_eq rfl, fun _ => rfl⟩
  | @operate i b operation next outcome h hb hphase hdoes =>
    rcases Machine.getElem?_set_cases ha' with ⟨-, rfl⟩ | ⟨hne, -⟩
    case inr => exact absurd rfl hne
    obtain ⟨⟨path, rfl⟩, -⟩ := hs.unlinking hb hplan hphase
    cases hdoes with
    | @intro numbering refused hnumbering =>
    generalize hp : (R.machine.sees b.process numbering refused).perform (.removeFile path) = done
    have hmappings : done.2.mappings = (R.machine.host b.process).mappings := by
      rw [← hp]
      rcases Host.perform_cases (R.machine.sees b.process numbering refused) (.removeFile path) with
        ⟨error, outcome, -, hrefused⟩ | hdone
      · rw [hrefused]
        rfl
      · rw [hdone]
        simp only [Host.carryOut]
        split <;> rfl
    refine ⟨fun file => (occupied_after hs hb hphase _ _ _).view_eq ?_, fun process => ?_⟩
    · change done.2.disk.shared file = _
      rw [← hp]
      exact Host.shared_perform id
    · by_cases hp : process = b.process
      · rw [hp, Machine.after, Machine.host_setParty, Machine.host_setHost_self]
        exact hmappings
      · rw [Machine.after, Machine.host_setParty, Machine.host_setHost_of_ne hp]
  | @obtain i identity b store directory' name' options hb hphase hopens hidentity =>
    rcases Machine.getElem?_set_cases ha' with ⟨-, rfl⟩ | ⟨hne, -⟩
    · rw [hopens] at hplan
      cases hplan
    · exact absurd rfl hne

/-- A handle works on the file that it was opened on, through a mapping that is in use, and on
no other. -/
def WorksOn (R : Realm) (i : Nat) (a : Party) (store : Store) (h : Handle) (file : Nat) : Prop :=
  a.hands.found = some file ∧
    (R.machine.host a.process).fileOf store.mapping = file ∧
    (R.machine.host a.process).inUse store.mapping = true ∧
    R.shared a store = (R.view file).shared ∧
    ∀ other, (R.view other).handles i = if other = file then some h else none

/-- Files are apart, whatever their names and numbers are and have been. -/
structure Apart (R : Realm) : Prop where
  /-- Every file is made once. -/
  made {i j : Nat} {a b : Party} (ha : R.machine.parties[i]? = some a)
    (hb : R.machine.parties[j]? = some b) (hmade : a.hands.made = true ∧ b.hands.made = true)
    (hfound : a.hands.found = b.hands.found) : i = j
  works {i : Nat} {a : Party} {store : Store} {h : Handle} (hh : R.Holds i a store h) :
    ∃ file, R.WorksOn i a store h file
  /-- Two handles work on one file just when they were opened on it, and those of one process
  share its mapping. -/
  together {i j : Nat} {a b : Party} {store store' : Store} {h h' : Handle}
    (hh : R.Holds i a store h) (hh' : R.Holds j b store' h') :
    ((R.machine.host a.process).fileOf store.mapping =
        (R.machine.host b.process).fileOf store'.mapping ↔ a.hands.found = b.hands.found) ∧
      (a.process = b.process → (store.mapping = store'.mapping ↔ a.hands.found = b.hands.found))
  /-- What is done through a handle is a step of the system in its file. It changes no other
  file, and it can be done, and comes to the same, whatever the other files are like. -/
  calls {thread i : Nat} {shown : List Happening} {R' : Realm}
    (hstep : Step R (.call thread i) shown R') :
    ∃ file, R.machine.file? i = some file ∧ System.Step (R.view file) shown (R'.view file) ∧
      (∀ other ≠ file, R'.view other = R.view other) ∧
      ∀ R₂ : Realm, R₂.Reachable → R₂.view file = R.view file →
        (R.workers thread = none → R₂.workers thread = none) →
          ∃ R₂', Step R₂ (.call thread i) shown R₂' ∧ R₂'.view file = R'.view file
  /-- Opening a queue changes no file but one that is being made for it, and takes nothing from
  those who have handles. -/
  openings {i : Nat} {shown : List Happening} {R' : Realm} (hstep : Step R (.plan i) shown R')
    (file : Nat) : (R'.view file).workers = (R.view file).workers ∧
      (∀ j h, (R.view file).handles j = some h → (R'.view file).handles j = some h) ∧
      ((∀ a, R.machine.parties[i]? = some a → a.hands.made = true → a.hands.found ≠ some file) →
        (R'.view file).shared = (R.view file).shared)
  /-- Removing a name changes nothing for those who have handles. -/
  unlinkings {i : Nat} {a : Party} {shown : List Happening} {R' : Realm} {directory name : String}
    (hstep : Step R (.plan i) shown R') (ha : R'.machine.parties[i]? = some a)
    (hplan : a.plan = .unlinks directory name) :
    (∀ file, R'.view file = R.view file) ∧ ∀ process,
      (R'.machine.host process).mappings = (R.machine.host process).mappings

theorem Holds.worksOn (hs : R.Sound) (hh : R.Holds i a store h) (hfound : a.hands.found = some file) :
    R.WorksOn i a store h file := by
  refine ⟨hfound, hh.fileOf_eq hs hfound, ?_, hh.shared_eq hs hfound, fun other => ?_⟩
  · exact Host.inUse_iff.mpr (hs.machine.users_pos hh.party (hs.fits hh.party hh.phase).2.1)
  · have hfile : R.machine.file? i = some file := hh.file_eq.trans hfound
    simp only [view, hfile, hh.handle_eq, Option.some.injEq, eq_comm]

/-- A process reaches a file through one mapping at a time. -/
theorem mapping_eq (hs : R.Sound) (hh : R.Holds i a store h) (hh' : R.Holds j b store' h')
    (hprocess : a.process = b.process) (hfound : a.hands.found = b.hands.found) :
    store.mapping = store'.mapping := by
  obtain ⟨-, hfile, hin, -⟩ := hh.worksOn hs (hs.found hh.party hh.phase)
  obtain ⟨-, hfile', hin', -⟩ := hh'.worksOn hs
    (hfound.symm.trans (hs.found hh.party hh.phase))
  rw [← hprocess] at hfile' hin'
  have hknown := hs.machine.remembers a.process store.mapping hin
  have hknown' := hs.machine.remembers a.process store'.mapping hin'
  rw [hfile', hknown] at hknown'
  exact Option.some.inj hknown'

theorem incarnations_apart (hr : R.Reachable) : R.Apart := by
  have hs := hr.sound
  constructor
  case made => exact fun ha hb hmade hfound => hs.machine.makers ha hb hmade hfound
  case works => exact fun hh => ⟨_, hh.worksOn hs (hs.found hh.party hh.phase)⟩
  case together =>
    intro i j a b store store' h h' hh hh'
    have hfound := hs.found hh.party hh.phase
    have hfound' := hs.found hh'.party hh'.phase
    have hiff : (R.machine.host a.process).fileOf store.mapping =
        (R.machine.host b.process).fileOf store'.mapping ↔ a.hands.found = b.hands.found := by
      rw [hfound, hfound', Option.some.injEq]
    refine ⟨hiff, fun hprocess => ⟨fun hmapping => hiff.mp ?_, mapping_eq hs hh hh' hprocess⟩⟩
    rw [hprocess, hmapping]
  case calls =>
    intro thread i shown R' hstep
    obtain ⟨file, hfile, hsystem, hothers⟩ := hstep.through hs
    refine ⟨file, hfile, hsystem, hothers, fun R₂ hr₂ hview hidle => ?_⟩
    exact hstep.elsewhere hs hr₂.sound hfile hview hidle
  case openings => exact fun hstep file => hstep.planned hs file
  case unlinkings => exact fun hstep ha hplan => hstep.unlinks hs ha hplan

theorem holds_of_parties {parties : List Party} (hparties : R.machine.parties = parties)
    (ha : parties[i]? = some a) (hphase : a.phase = .holding store h) : R.Holds i a store h :=
  ⟨hparties ▸ ha, hphase⟩

/-- A name is given to a file, taken away and given to another file, which is then opened once
more by another path: the last two handles are on one file, and the first is not. -/
theorem incarnations_apart_made_again : ∃ R : Realm, R.Apart ∧
    ∃ (a b c : Party) (store store' : Store) (h h' h'' : Handle), R.Holds 0 a store h ∧
      R.Holds 2 b store' h' ∧ R.Holds 3 c store' h'' ∧ a.hands.found ≠ b.hands.found ∧
      b.hands.found = c.hands.found := by
  let create : Options := { create := true, sizing := ⟨1, 1⟩ }
  have hr : Reachable { machine := { disk := Disk.fresh } } := ⟨_, Machine.starts_fresh, .refl⟩
  obtain ⟨M₁, _, hruns₁, halone₁, hparties₁⟩ := exists_opened "." "/q" create ⟨0, ⟨1, 1⟩⟩
    (R := { machine := { disk := Disk.fresh } }) (Machine.alone_fresh 0)
    (Prod.ext (by decide +kernel) rfl)
  obtain ⟨M₂, _, hruns₂, halone₂, hparties₂⟩ := exists_carried (.unlinks "." "/q")
    (.ok none) (R := { machine := M₁ }) halone₁ (Prod.ext (by decide +kernel) rfl)
  obtain ⟨M₃, _, hruns₃, halone₃, hparties₃⟩ := exists_opened "." "/q" create ⟨1, ⟨1, 1⟩⟩
    (R := { machine := M₂ }) halone₂ (Prod.ext (by decide +kernel) rfl)
  obtain ⟨M₄, _, hruns₄, -, hparties₄⟩ := exists_opened "./." "/q" {} ⟨1, ⟨1, 1⟩⟩
    (R := { machine := M₃ }) halone₃ (Prod.ext (by decide +kernel) rfl)
  rw [hparties₃, hparties₂, hparties₁] at hparties₄
  have hapart := incarnations_apart (hr.runs (hruns₁.trans (hruns₂.trans (hruns₃.trans hruns₄))))
  have ha : Holds { machine := M₄ } 0 _ _ _ := holds_of_parties hparties₄ rfl rfl
  have hb : Holds { machine := M₄ } 2 _ _ _ := holds_of_parties hparties₄ rfl rfl
  have hc : Holds { machine := M₄ } 3 _ _ _ := holds_of_parties hparties₄ rfl rfl
  refine ⟨_, hapart, _, _, _, _, _, _, _, _, ha, hb, hc, ?_, ((hapart.together hb hc).2 rfl).mp rfl⟩
  exact fun hfound => absurd (((hapart.together ha hb).2 rfl).mpr hfound) (by decide)

end Realm

end MappedQueue
