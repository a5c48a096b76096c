import MappedQueue.Proofs.Abandoned
import MappedQueue.Proofs.Tallies

/-!
# Creation publishes a queue at once

However the operations of those who make a queue and of those who open it or attach to it come
between each other, one of them makes the file, and it alone writes to it. The others find
nothing, or a file that is not ready, or the finished queue with the sizing of its maker, and
nothing else. When the maker stops halfway, they give up in the end, and leave everything as it
is.
-/

namespace MappedQueue

variable {directory name : String}

/-- An operation of an opening changes no file but one that the thread has made itself and not
finished yet. -/
theorem Aftermath.spares {s : Sizing} {found : Option Nat} {c : Account} {d d' : Disk} {deed : Deed}
    {file : Nat} (hleft : Aftermath directory name s found c d deed d') (hf : d.Formed)
    (hchanged : d'.shared file ≠ d.shared file) :
    found = some file ∧ ∃ draft, c.draft = some draft ∧ draft.stage ≠ .published := by
  cases hleft with
  | houses hname hpath =>
    obtain ⟨hwidens, -⟩ := Disk.makeDirectories_widens hf _
    exact absurd (Disk.shared_of_files hwidens.files_eq file) hchanged
  | makes hpath hcreate hhoused hdraft hs =>
    obtain ⟨-, hfiles⟩ := Disk.createFile_ok hcreate
    exact absurd (Disk.shared_push hfiles file) hchanged
  | @revises deed file' draft draft' d' hhands hfound hdraft hafter hrevises hnodes hsize hself hothers =>
    by_cases hfile : file = file'
    · subst hfile
      exact ⟨hfound, draft, hdraft, hrevises.unpublished⟩
    · exact absurd (hothers file hfile) hchanged
  | removes hpath hunlink hdraft =>
    exact absurd (Disk.shared_of_files (Disk.unlink_files hunlink) file) hchanged
  | _ => exact absurd rfl hchanged

theorem Machine.Does.size_le {M : Machine} {process : Nat} {operation : Operation}
    {outcome : operation.Outcome} {h : Host} (hd : M.Does process operation outcome h)
    (hf : M.disk.Formed) : M.disk.files.size ≤ h.disk.files.size := by
  obtain ⟨numbering, refused, -, rfl⟩ := hd.exists_perform
  have hchange := Host.perform_change (h := M.sees process numbering refused) hf operation
  exact (hchange.extends_ hf).1.size_le

theorem Draft.Right.size {s : Sizing} {draft : Draft} (h : draft.Right s) :
    draft.region.size = 0 ∨ draft.region.size = s.fileSize := by
  obtain ⟨r, stage⟩ := draft
  cases stage with
  | raw => exact h.2
  | prepared => exact Or.inr h.2.size_eq
  | published => exact Or.inr (Fresh.reads h).1

/-- A queue file has one sizing. -/
theorem Fresh.sizing_unique {s s' : Sizing} {q : Shared} (h : Fresh s q) (h' : Fresh s' q) : s = s' := by
  obtain ⟨-, -, hcapacity, hmessageSize⟩ := h.reads
  obtain ⟨-, -, hcapacity', hmessageSize'⟩ := h'.reads
  obtain ⟨capacity, messageSize⟩ := s
  obtain ⟨capacity', messageSize'⟩ := s'
  rw [Sizing.mk.injEq]
  exact ⟨hcapacity.symm.trans hcapacity', hmessageSize.symm.trans hmessageSize'⟩

/-- What the answer of an attempt to attach tells of the file that it has looked at, if that is
not older than the contest. -/
structure Look.Tells (old : Nat) (d : Disk) (look : Look) (result : Except Error Sizing) : Prop where
  early : result = .error .notReady ↔ look.Early
  handle {file : Nat} (hfile : look.file = some file) (hrecent : old ≤ file) :
    result ≠ .error .badHandle
  sizing {file : Nat} {s : Sizing} (hfile : look.file = some file) (hrecent : old ≤ file)
    (hresult : result = .ok s) : s.Valid ∧ Fresh s (d.shared file)

/-- A thread has a queue open. -/
def Party.Has (a : Party) (store : Store) : Prop :=
  a.phase = .busy (.done (.ok (some store))) ∨ ∃ handle, a.phase = .holding store handle

namespace Realm

variable {R R' : Realm} {M : Machine} {i j file : Nat} {a b : Party} {s : Sizing} {store : Store}
  {options : Options}

/-- A thread has made a file, and it is a queue with the sizing that the thread wants. -/
def Published (R : Realm) (file : Nat) (s : Sizing) : Prop :=
  ∃ (j : Nat) (b : Party), R.machine.parties[j]? = some b ∧ b.Keeping ∧ b.hands.found = some file ∧
    b.plan.sizing = s ∧ s.Valid ∧ Fresh s (R.machine.disk.shared file)

/-- An opening that is in vain as long as the system does all it is asked to do. -/
structure Vain (R : Realm) (i file : Nat) (options : Options) (a : Party) : Prop where
  ended {outcome : Except Error (Option Store)} (hphase : a.phase = .busy (.done outcome)) :
    outcome = .error .timedOut ∧ a.attempts = options.retries + 1
  busy : ∃ rest, a.phase = .busy rest
  /-- It can come to its end. -/
  ends (hpermits : R.machine.disk.permits file (Disk.ownerReads ||| Disk.ownerWrites) = true) :
    ∃ R' b, Through i R R' ∧ R'.machine.parties[i]? = some b ∧
      b.phase = .busy (.done (.error .timedOut)) ∧ b.attempts = options.retries + 1

/-- What goes for a realm that a contest for a name has come to, on a machine to begin with. -/
structure Atomic (directory name : String) (M : Machine) (R : Realm) : Prop where
  /-- A thread makes one file at most, unless it removes it again. -/
  once {i : Nat} {a : Party} (ha : R.machine.parties[i]? = some a) : a.created ≤ a.removed + 1
  removes {i : Nat} {a : Party} (ha : R.machine.parties[i]? = some a) (hremoved : 0 < a.removed) :
    a.Broken
  /-- At most one thread makes a file. -/
  sole {i j : Nat} {a b : Party} (ha : R.machine.parties[i]? = some a)
    (hb : R.machine.parties[j]? = some b) (hkeeping : a.Keeping ∧ b.Keeping) : i = j
  /-- The others can only attach to it. -/
  others {i j file : Nat} {a b : Party} {deed : Deed} {h : Host} (ha : R.machine.parties[i]? = some a)
    (hkeeping : a.Keeping) (hfound : a.hands.found = some file) (hne : j ≠ i)
    (hp : R.Performs j b deed h) : h.disk = R.machine.disk ∧
      (∀ path mode serial, deed ≠ ⟨.createFile path mode, .ok serial⟩) ∧
        ∀ path other, deed = ⟨.openFile path, .ok other⟩ → other = file
  /-- No file changes but one without a tag, which whoever changes it has made. -/
  spares {i file : Nat} {a : Party} {deed : Deed} {h : Host} (hp : R.Performs i a deed h)
    (hchanged : h.disk.shared file ≠ R.machine.disk.shared file) : M.disk.files.size ≤ file ∧
      a.Keeping ∧ a.hands.found = some file ∧ (R.machine.disk.shared file).region.read .tag = 0
  /-- Whoever asks for the length of a file that is in the making is told its full length or none. -/
  lengths {i j file n : Nat} {a b : Party} {h : Host} (hp : R.Performs i a ⟨.fileLength file, n⟩ h)
    (hb : R.machine.parties[j]? = some b) (hkeeping : b.Keeping) (hfound : b.hands.found = some file) :
    n = 0 ∨ n = b.plan.sizing.fileSize
  /-- Whoever reads the tag of a new file finds it just when the file is a finished queue. -/
  tags {i file mapping value : Nat} {a : Party} {h : Host}
    (hp : R.Performs i a ⟨.load mapping .tag, value⟩ h) (hfound : a.hands.found = some file)
    (hrecent : M.disk.files.size ≤ file) : (value = 0 ∨ value = Layout.validTag) ∧
      (value = Layout.validTag ↔ ∃ s, R.Published file s)
  /-- Every attempt to attach, alone or in an opening, answers what goes with what it has seen. -/
  attempts {s : Sizing} {c : Account} (hdraft : c.draft = none) :
    (Store.attach (Name.storePath directory name)).Obeys (Account.rules directory name s)
      (fun c result => c.look.Answers (result.map (·.sizing))) c
  looks {i : Nat} {a : Party} {result : Except Error Sizing} (ha : R.machine.parties[i]? = some a)
    (hanswers : a.account.look.Answers result) :
    a.account.look.Tells M.disk.files.size R.machine.disk result
  answered {i : Nat} {a : Party} {path : String} {outcome : Except Error (Option Store)}
    (ha : R.machine.parties[i]? = some a) (hplan : a.plan = .attaches path)
    (hphase : a.phase = .busy (.done outcome)) : ∃ result : Except Error Store,
      outcome = result.map some ∧ a.account.look.Answers (result.map (·.sizing))
  /-- Before there is a file there is nothing to be found. -/
  absent {path : Path} {R' : Realm} (hpath : Path.ofString (Name.storePath directory name) = .ok path)
    (hbefore : R.machine.disk.files.size = M.disk.files.size) (hruns : Runs R R')
    (hr : R'.Contest directory name M) (hafter : M.disk.files.size < R'.machine.disk.files.size) :
    R.machine.disk.openFile path = .error (.code Errno.noEntry)
  /-- No opening fails because a file was not ready, or takes a new file for something else. -/
  opened {i : Nat} {a : Party} {options : Options} {error : Error} (ha : R.machine.parties[i]? = some a)
    (hplan : a.plan = .opens directory name options) (hphase : a.phase = .busy (.done (.error error))) :
    error ≠ .notReady ∧ (error = .badHandle →
      ∃ file, a.hands.found = some file ∧ file < M.disk.files.size)
  /-- Whoever has a new queue open has it with the sizing of its maker, and it is in order. -/
  attached {i file : Nat} {a : Party} {store : Store} (ha : R.machine.parties[i]? = some a)
    (hhas : a.Has store) (hfound : a.hands.found = some file) (hrecent : M.disk.files.size ≤ file) :
    R.Published file store.sizing
  /-- Without the maker of a file that is not finished everything stays as it is, and whoever
  comes later to open the queue does so in vain. -/
  stuck {m file : Nat} {R' : Realm} (hu : R.Unfinished m file) (hw : Without m R R')
    (hr : R'.Contest directory name M) : R'.machine.disk = R.machine.disk ∧
      ∀ {i : Nat} {a : Party} {options : Options}, R.machine.parties.length ≤ i →
        R'.machine.parties[i]? = some a → a.plan = .opens directory name options →
          (options.create = true → options.exclusive = false ∧ options.sizing.Valid) →
            (∀ deed ∈ a.past, ¬ deed.Fails) → R'.Vain i file options a

namespace Contest

theorem published (hr : R.Contest directory name M) (hrecent : M.disk.files.size ≤ file)
    (hlt : file < R.machine.disk.files.size)
    (htag : (R.machine.disk.shared file).region.read .tag ≠ 0) : ∃ s, R.Published file s := by
  have hc := hr.contested
  obtain ⟨j, b, r, hb, hfound, hdraft⟩ := (hc.contents hrecent hlt).resolve_left htag
  obtain ⟨file', hkeeps⟩ := hc.kept hb hdraft
  cases hfound.symm.trans hkeeps.found
  have hkeeping : b.Keeping := (hr.tallies hb).keeping_iff.mpr fun hnone => by
    cases hnone.symm.trans hdraft
  refine ⟨_, j, b, hb, hkeeping, hfound, rfl, hkeeps.valid, ?_⟩
  rw [hkeeps.content]
  exact hkeeps.right

/-- What an attempt answers tells what there is. -/
theorem tells (hr : R.Contest directory name M) (ha : R.machine.parties[i]? = some a)
    {result : Except Error Sizing} (hanswers : a.account.look.Answers result) :
    a.account.look.Tells M.disk.files.size R.machine.disk result := by
  constructor
  case early => exact hanswers.notReady_iff
  case handle =>
    intro file hfile hrecent hresult
    rw [hresult] at hanswers
    exact (hr.contested.seen ha hfile hrecent).not_spoilt hanswers
  case sizing =>
    intro file s hfile hrecent hresult
    rw [hresult] at hanswers
    exact (hr.contested.seen ha hfile hrecent).shows hanswers

theorem attached (hr : R.Contest directory name M) (ha : R.machine.parties[i]? = some a)
    (hhas : a.Has store) (hfound : a.hands.found = some file) (hrecent : M.disk.files.size ≤ file) :
    R.Published file store.sizing := by
  have hc := hr.contested
  have hs := hr.reachable.sound
  have hends : a.account.Ends a.plan (.ok (some store)) := by
    obtain ⟨-, hfollows⟩ := hc.follows ha
    rcases hhas with hphase | ⟨handle, hphase⟩
    · rw [hphase] at hfollows
      exact hfollows
    · rw [hphase] at hfollows
      exact hfollows
  -- Whoever has not made the queue has seen its tag.
  have hshows : a.account.look.Shows store.sizing → R.Published file store.sizing := by
    intro hshows
    obtain ⟨-, -, -, n, hlength, -⟩ := id hshows
    obtain ⟨file', hfile⟩ := hr.look_file ha hlength
    cases hfound.symm.trans (a.agrees.found hfile)
    obtain ⟨-, hfresh⟩ := (hc.seen ha hfile hrecent).shows hshows
    have htag : (R.machine.disk.shared file).region.read .tag ≠ 0 := by
      rw [hfresh.reads.2.1]
      decide
    have hlt := (hs.machine.settled ha).held.found_lt file hfound
    obtain ⟨s, j, b, hb, hkeeping, hfound', hsizing, hvalid, hfresh'⟩ := hr.published hrecent hlt htag
    cases hfresh.sizing_unique hfresh'
    exact ⟨j, b, hb, hkeeping, hfound', hsizing, hvalid, hfresh'⟩
  cases hplan : a.plan with
  | opens directory' name' options =>
    rw [hplan] at hends
    obtain ⟨result, hresult, hopened⟩ := hends
    cases result with
    | error error => cases hresult
    | ok store' =>
      cases hresult
      rcases hopened with ⟨-, hsees⟩ | ⟨hsizing, r, hdraft⟩
      · exact hshows hsees
      · obtain ⟨file', hkeeps⟩ := hc.kept ha hdraft
        cases hfound.symm.trans hkeeps.found
        have hsizing' : a.plan.sizing = store.sizing := by
          rw [hplan]
          exact hsizing.symm
        refine ⟨i, a, ha, ?_, hfound, hsizing', hsizing' ▸ hkeeps.valid, ?_⟩
        · exact (hr.tallies ha).keeping_iff.mpr fun hnone => by cases hnone.symm.trans hdraft
        · rw [hkeeps.content, ← hsizing']
          exact hkeeps.right
  | attaches path =>
    rw [hplan] at hends
    obtain ⟨result, hresult, -, -, hanswers⟩ := hends
    cases result with
    | error error => cases hresult
    | ok store' =>
      cases hresult
      exact hshows hanswers
  | unlinks directory' name' =>
    rw [hplan] at hends
    exact absurd hends id

/-- Whoever has opened a queue, or attached to it, where there was no file before has a published
one. -/
theorem exists_published (hr : R.Contest directory name M) (hnone : M.disk.files.size = 0)
    (ha : R.machine.parties[i]? = some a) (houtcome : a.outcome? = some (.ok (some store))) :
    ∃ file, R.Published file store.sizing := by
  have hphase := Party.phase_of_outcome? houtcome
  have hsettled := hr.reachable.sound.machine.settled ha
  have hfits := hsettled.orderly
  unfold Party.Orderly at hfits
  rw [hphase] at hfits
  exact ⟨_, hr.attached ha (Or.inl hphase) (hsettled.held.mapping_eq _ hfits.2.1)
    (hnone ▸ Nat.zero_le _)⟩

/-- Until a file is made only directories are made, and where a file can be made then there is
none now. -/
theorem absent (hruns : Runs R R') (hr : R'.Contest directory name M)
    (hstart : Runs { machine := M } R) {path : Path}
    (hpath : Path.ofString (Name.storePath directory name) = .ok path)
    (hbefore : R.machine.disk.files.size = M.disk.files.size) :
    (R'.machine.disk.files.size = M.disk.files.size → Disk.Widens R.machine.disk R'.machine.disk) ∧
      (M.disk.files.size < R'.machine.disk.files.size →
        R.machine.disk.openFile path = .error (.code Errno.noEntry)) := by
  have hformed : R.machine.disk.Formed :=
    (Reachable.runs ⟨M, hr.starts, .refl⟩ hstart).sound.machine.formed
  induction hruns with
  | refl =>
    refine ⟨fun _ => .refl hr.reachable.sound.machine.formed, fun hlt => ?_⟩
    omega
  | @tail R₁ R₂ hruns hstep ih =>
    obtain ⟨i, shown, hstep⟩ := hstep
    have hr₁ := hr.before (hstart.trans hruns) hstep
    obtain ⟨hwidens, hnone⟩ := ih hr₁
    have hgrown := hr₁.contested.grown
    cases hstep with
    | begin process plan => exact ⟨hwidens, hnone⟩
    | obtain ha hphase hplan hidentity => exact ⟨hwidens, hnone⟩
    | @operate i a operation next outcome h ha hphase hdoes =>
      have hp : R₁.Performs i a ⟨operation, outcome⟩ h := ⟨ha, ⟨next, hphase⟩, hdoes⟩
      have hleft := hr₁.aftermath hp
      show (h.disk.files.size = _ → Disk.Widens R.machine.disk h.disk) ∧ (_ < h.disk.files.size → _)
      have hs := hr₁.reachable.sound.machine
      have hle := hdoes.size_le hs.formed
      by_cases hsize : R₁.machine.disk.files.size = M.disk.files.size
      · obtain ⟨hdraft, -⟩ := hr₁.contested.untouched hs hsize ha
        generalize h.disk = d' at hleft ⊢
        generalize (⟨operation, outcome⟩ : Deed) = deed at hleft
        cases hleft with
        | houses hname hpath' =>
          obtain ⟨hmore, -⟩ := Disk.makeDirectories_widens hs.formed _
          refine ⟨fun _ => (hwidens hsize).trans hmore, fun hlt => ?_⟩
          rw [hmore.files_eq] at hlt
          omega
        | makes hpath' hcreate hhoused _ hvalid =>
          cases hpath.symm.trans hpath'
          obtain ⟨-, hfiles⟩ := Disk.createFile_ok hcreate
          have hpush := congrArg Array.size hfiles
          rw [Array.size_push] at hpush
          refine ⟨fun hsame => ?_, fun _ => ?_⟩
          · omega
          · exact Disk.openFile_before (hwidens hsize) hformed hcreate
        | revises hhands hfound hdraft' => cases hdraft.symm.trans hdraft'
        | removes hpath' hunlink hdraft' => cases hdraft.symm.trans hdraft'
        | _ => exact ⟨hwidens, hnone⟩
      · exact ⟨fun hsame => by omega, fun _ => hnone (by omega)⟩

end Contest

/-- However those who make a queue and those who open it or attach to it come between each other,
its file is made and becomes a queue at once. -/
theorem creation_atomic (hr : R.Contest directory name M) : R.Atomic directory name M := by
  have hc := hr.contested
  have hs := hr.reachable.sound
  have hdraft : ∀ {i : Nat} {a : Party}, R.machine.parties[i]? = some a → a.Keeping →
      ∃ draft, a.account.draft = some draft := fun ha hkeeping =>
    Option.ne_none_iff_exists'.mp ((hr.tallies ha).keeping_iff.mp hkeeping)
  constructor
  case once =>
    intro i a ha
    rcases hr.tallies ha with ⟨-, heq⟩ | ⟨-, heq⟩ <;> omega
  case removes => exact hr.broken
  case sole =>
    intro i j a b ha hb ⟨hkeeping, hkeeping'⟩
    obtain ⟨draft, hdraft₁⟩ := hdraft ha hkeeping
    obtain ⟨draft', hdraft₂⟩ := hdraft hb hkeeping'
    exact hc.sole hs.machine ha hb hdraft₁ hdraft₂
  case others =>
    intro i j file a b deed h ha hkeeping hfound hne hp
    obtain ⟨draft, hdraft⟩ := hdraft ha hkeeping
    exact hc.others hs.machine ha hdraft hfound hp.party hne (hr.aftermath hp)
  case spares =>
    intro i file a deed h hp hchanged
    obtain ⟨hfound, draft, hdraft, hunpublished⟩ := (hr.aftermath hp).spares hs.machine.formed hchanged
    obtain ⟨file', hkeeps⟩ := hc.kept hp.party hdraft
    cases hfound.symm.trans hkeeps.found
    have hkeeping : a.Keeping := (hr.tallies hp.party).keeping_iff.mpr fun hnone => by
      cases hnone.symm.trans hdraft
    have hu : R.Unfinished i file := ⟨a, draft, hp.party, hfound, hdraft, hunpublished⟩
    exact ⟨hkeeps.recent, hkeeping, hfound, (hu.stands hr).2.2⟩
  case lengths =>
    intro i j file n a b h hp hb hkeeping hfound
    obtain ⟨draft, hdraft⟩ := hdraft hb hkeeping
    obtain ⟨file', hkeeps⟩ := hc.kept hb hdraft
    cases hfound.symm.trans hkeeps.found
    obtain ⟨-, hlength⟩ := hp.measures hs
    rw [hlength, hkeeps.content]
    exact hkeeps.right.size
  case tags =>
    intro i file mapping value a h hp hfound hrecent
    have hlt := (hs.machine.settled hp.party).held.found_lt file hfound
    have hvalue := hp.loads hs hfound
    refine ⟨?_, fun htag => ?_, fun ⟨s, j, b, hb, _, _, _, _, hfresh⟩ => ?_⟩
    · rw [hvalue]
      exact (hc.finished hrecent hlt).imp_right And.left
    · apply hr.published hrecent hlt
      rw [← hvalue, htag]
      decide
    · exact hvalue.trans hfresh.reads.2.1
  case attempts =>
    intro s c hnone
    exact Script.Obeys.mono (fun _ _ hattempted => hattempted.2.2) (Store.accounts_attach hnone)
  case looks => exact fun ha hanswers => hr.tells ha hanswers
  case answered =>
    intro i a path outcome ha hplan hphase
    obtain ⟨-, hfollows⟩ := hc.follows ha
    rw [hphase, hplan] at hfollows
    obtain ⟨result, hresult, -, -, hanswers⟩ := hfollows
    exact ⟨result, hresult, hanswers⟩
  case absent =>
    intro R' path hpath hbefore hruns hr' hafter
    exact (hr'.absent hruns hr.runs hpath hbefore).2 hafter
  case opened =>
    intro i a options error ha hplan hphase
    obtain ⟨-, hfollows⟩ := hc.follows ha
    rw [hphase, hplan] at hfollows
    obtain ⟨result, hresult, hopened⟩ := hfollows
    cases result with
    | ok store => cases hresult
    | error error' =>
      cases hresult
      obtain ⟨-, hready, hhandle⟩ := hopened
      refine ⟨hready, fun hbad => ?_⟩
      have hspoilt := hhandle hbad
      obtain ⟨n, -, hlength, -⟩ := id hspoilt
      obtain ⟨file, hfile⟩ := hr.look_file ha hlength
      refine ⟨file, a.agrees.found hfile, Nat.lt_of_not_le fun hrecent => ?_⟩
      exact (hc.seen ha hfile hrecent).not_spoilt hspoilt
  case attached => exact hr.attached
  case stuck =>
    intro m file R' hu hw hr'
    obtain ⟨hu', hdisk, hwaits⟩ := hu.vain hw hr.runs hr'
    refine ⟨hdisk, fun {i a options} hle ha hplan hshared hheeded => ?_⟩
    have hw' := hwaits hle ha hplan hshared
    obtain ⟨rest, hbusy, hobeys⟩ := hw'.vain hheeded
    have hne : i ≠ m := by
      rintro rfl
      obtain ⟨b, -, hb, -⟩ := hu
      exact absurd (List.getElem?_eq_some_iff.mp hb).1 (Nat.not_lt_of_le hle)
    constructor
    case ended =>
      intro outcome hphase
      cases hphase.symm.trans hbusy
      exact hobeys
    case busy => exact ⟨rest, hbusy⟩
    case ends =>
      intro hpermits
      obtain ⟨R'', b, hthrough, hb, hphase, hattempts, -⟩ :=
        hu'.exists_end hr' hne hpermits ha hw' hheeded
      exact ⟨R'', b, hthrough, hb, hphase, hattempts⟩

/-- One who makes a queue, one who attaches to it, one who would make it with another sizing, and one
who only opens it. -/
def contenders : List Plan := [
  .opens "." "/q" { create := true, sizing := ⟨1, 1⟩ }, .attaches (Name.storePath "." "/q"),
  .opens "." "/q" { create := true, sizing := ⟨2, 4⟩ }, .opens "." "/q" { retries := 1 }]

theorem contenders_seek {plan : Plan} (hplan : plan ∈ contenders) : plan.Seeks "." "/q" := by
  unfold contenders at hplan
  simp only [List.mem_cons, List.not_mem_nil, or_false] at hplan
  obtain rfl | rfl | rfl | rfl := hplan
  · exact ⟨rfl, rfl⟩
  · exact rfl
  · exact ⟨rfl, rfl⟩
  · exact ⟨rfl, rfl⟩

/-- The maker of a queue stands still between its operations, first when the file has no length and
then when it has no tag, and the others have their turns. -/
theorem exists_race : ∃ M₁ M₂ M₃ : Machine,
    Runs { machine := { disk := Disk.fresh } } { machine := M₁ } ∧
      Without 0 { machine := M₁ } { machine := M₂ } ∧
        Runs { machine := M₂ } { machine := M₃ } ∧
          (M₁.parties[0]?.map fun b => (b.hands.found, b.account.draft.map (·.stage))) =
            some (some 0, some .raw) ∧
          (M₃.parties.map fun a => (a.plan, a.attempts, a.outcome?)) =
            contenders.zip [
              (0, some (.ok (some ⟨0, ⟨1, 1⟩⟩))), (1, some (.error .notReady)),
              (3, some (.ok (some ⟨0, ⟨1, 1⟩⟩))), (2, some (.error .timedOut))] := by
  obtain ⟨M, hruns, halone, hparties⟩ := exists_begun 0 contenders
    (R := { machine := { disk := Disk.fresh } }) (Machine.alone_fresh 0)
  have hprocess : ∀ a ∈ M.parties, a.process = 0 := by
    intro a ha
    rw [hparties] at ha
    obtain ⟨plan, -, rfl⟩ := List.mem_map.mp ha
    rfl
  obtain ⟨M₁, hruns₁, hprocess₁, halone₁, hparties₁⟩ := exists_turns (fun _ => True)
    [(0, 2), (1, 9), (2, 6), (0, 5)] (fun _ _ => trivial) (R := { machine := M }) hprocess halone
  obtain ⟨M₂, hwithout, hprocess₂, halone₂, hparties₂⟩ := exists_turns (· ≠ 0)
    [(2, 7), (3, 14)] (by decide) (R := { machine := M₁ }) hprocess₁ halone₁
  obtain ⟨M₃, hruns₃, -, -, hparties₃⟩ := exists_turns (fun _ => True)
    [(0, 14), (2, 7)] (fun _ _ => trivial) (R := { machine := M₂ }) hprocess₂ halone₂
  dsimp only at hparties hparties₁ hparties₂ hparties₃
  rw [hparties] at hparties₁ hparties₂ hparties₃
  rw [hparties₁] at hparties₂ hparties₃
  rw [hparties₂] at hparties₃
  refine ⟨M₁, M₂, M₃, hruns.trans hruns₁.runs, hwithout, hruns₃.runs, ?_, ?_⟩
  · rw [hparties₁]
    decide +kernel
  · rw [hparties₃]
    decide +kernel

/-- Meanwhile a thread attaches in vain, another one that cannot make the file any more looks at it
twice, and a third one gives up. When the maker has come to its end, the second one has the queue
open, with the sizing of the maker. -/
theorem creation_atomic_raced : ∃ R₁ R₂ R : Realm,
    R.Contest "." "/q" { disk := Disk.fresh } ∧ R₁.Atomic "." "/q" { disk := Disk.fresh } ∧
      R.Atomic "." "/q" { disk := Disk.fresh } ∧ R₁.Unfinished 0 0 ∧ Without 0 R₁ R₂ ∧
        R₂.machine.disk = R₁.machine.disk ∧ Runs R₂ R ∧ (∃ file, R.Published file ⟨1, 1⟩) ∧
          (R.machine.parties.map fun a => (a.plan, a.attempts, a.outcome?)) =
            contenders.zip [
              (0, some (.ok (some ⟨0, ⟨1, 1⟩⟩))), (1, some (.error .notReady)),
              (3, some (.ok (some ⟨0, ⟨1, 1⟩⟩))), (2, some (.error .timedOut))] := by
  obtain ⟨M₁, M₂, M₃, hruns₁, hwithout, hruns₃, hfirst, hends⟩ := exists_race
  have hr : Contest "." "/q" { disk := Disk.fresh } { machine := M₃ } := by
    refine ⟨Machine.starts_fresh, hruns₁.trans (hwithout.runs.trans hruns₃), fun ha => ?_⟩
    have hmem := List.mem_map_of_mem (f := fun a : Party => (a.plan, a.attempts, a.outcome?))
      (List.mem_of_getElem? ha)
    rw [hends] at hmem
    exact contenders_seek (List.of_mem_zip hmem).1
  have hr₁ : Contest "." "/q" { disk := Disk.fresh } { machine := M₁ } :=
    hr.earlier hruns₁ (hwithout.runs.trans hruns₃)
  have hr₂ : Contest "." "/q" { disk := Disk.fresh } { machine := M₂ } :=
    hr.earlier (hruns₁.trans hwithout.runs) hruns₃
  have hunfinished : Unfinished { machine := M₁ } 0 0 := by
    obtain ⟨b, hb, hfacts⟩ := Option.map_eq_some_iff.mp hfirst
    rw [Prod.mk.injEq] at hfacts
    obtain ⟨draft, hdraft, hstage⟩ := Option.map_eq_some_iff.mp hfacts.2
    exact ⟨b, draft, hb, hfacts.1, hdraft, by rw [hstage]; decide⟩
  have hpublished : ∃ file, Published { machine := M₃ } file ⟨1, 1⟩ := by
    have hsecond := congrArg (·[2]?) hends
    rw [List.getElem?_map] at hsecond
    obtain ⟨c, hc, hfacts⟩ := Option.map_eq_some_iff.mp hsecond
    simp only [Prod.mk.injEq] at hfacts
    exact hr.exists_published rfl hc hfacts.2.2
  have hatomic₁ := creation_atomic hr₁
  obtain ⟨hdisk, -⟩ := hatomic₁.stuck hunfinished hwithout hr₂
  exact ⟨_, _, _, hr, hatomic₁, creation_atomic hr, hunfinished, hwithout, hdisk, hruns₃,
    hpublished, hends⟩

end Realm

end MappedQueue
