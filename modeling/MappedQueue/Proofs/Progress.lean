import MappedQueue.Proofs.Passes
import MappedQueue.Proofs.Paths
import MappedQueue.Proofs.Runs

/-!
# Runs of one thread

If one thread takes steps and the others do nothing, its call comes to an end, or it falls
asleep: the system can always go on from a state in which the lock is free. The states in which
a call is over, or asleep, are at rest, and a run can be put together of such pieces.
-/

namespace MappedQueue.System

variable {s : Sizing} {q q' : Shared} {S S' S₀ : System} {a b : Ideal}
  {history shown : List Happening} {thread number n : Nat} {h : Handle} {around : Surroundings}
  {c c' : Call} {last : Advance} {workers : Nat → Option Worker}
  {sleepers : List (Nat × Condition)}

theorem Run.trans (hr : Run S₀ history S) (hr' : Run S shown S') :
    Run S₀ (history ++ shown) S' := by
  induction hr' with
  | start =>
    rw [List.append_nil]
    exact hr
  | step _ hstep ih =>
    rw [← List.append_assoc]
    exact .step ih hstep

theorem Run.single (hstep : Step S shown S') : Run S shown S' := .step .start hstep

/-- The system after the call of a thread is over. -/
def afterCall (S : System) (thread number : Nat) (h : Handle) (last : Advance) : System :=
  { (S.setHandle number (some { h with nonblocking := last.nonblocking })).setWorker thread none with
    shared := last.shared }

/-- Where the thread stood before its call ended makes no difference afterwards. -/
theorem afterCall_setWorker (worker : Option Worker) :
    (S.setWorker thread worker).afterCall thread number h last =
      S.afterCall thread number h last := by
  simp only [afterCall, setWorker, setHandle, Function.update_idem]

theorem news_of_onward {next : Advance} (hp : next.call.point.Onward) (hd : next.delivery = none) :
    news thread h next = [] := by
  unfold news
  rw [hd]
  cases hpoint : next.call.point <;> simp only [hpoint, Point.Onward] at hp <;> rfl

/-- A call that goes on and leaves the mode of its handle alone changes only itself and what
is shared. -/
theorem advance_of_onward {next : Advance} (hp : next.call.point.Onward)
    (hm : next.nonblocking = h.nonblocking) (hhandle : S.handles number = some h) :
    S.advance thread ⟨number, .request, c⟩ h next =
      { S.setWorker thread (some ⟨number, .request, next.call⟩) with shared := next.shared } := by
  have hafter : handleAfter ⟨number, .request, c⟩ h next = S.handles number := by
    unfold handleAfter
    rw [hm, hhandle]
    cases hpoint : next.call.point <;> simp only [hpoint, Point.Onward] at hp <;> rfl
  have hworker : onward ⟨number, .request, c⟩ next = some ⟨number, .request, next.call⟩ := by
    unfold onward
    cases hpoint : next.call.point <;> simp only [hpoint, Point.Onward] at hp <;> rfl
  rw [advance, hafter, hworker, setHandle, Function.update_eq_self]

/-- A call that comes from one point to another when it is left alone does so on a path of the
system. -/
theorem Path.of_comes (hc : Call.Comes thread h around n q c q' c') : ∀ {S : System},
    S.shared = q → S.handles number = some h → S.workers thread = some ⟨number, .request, c⟩ →
      Path (PromptedBy thread around) S []
        { S.setWorker thread (some ⟨number, .request, c'⟩) with shared := q' } := by
  induction hc with
  | @here q c =>
    intro S hshared hhandle hworker
    have hsame : S.setWorker thread (some ⟨number, .request, c⟩) = S := by
      rw [setWorker, ← hworker, Function.update_eq_self]
    subst hshared
    rw [hsame]
    exact .start
  | @goes n q q' q'' c c' c'' hstep honward _ ih =>
    intro S hshared hhandle hworker
    subst hshared
    have hact := PromptedBy.acts hworker hhandle hstep
    rw [news_of_onward honward rfl, advance_of_onward honward rfl hhandle] at hact
    have hend := ih (S := { S.setWorker thread (some ⟨number, .request, c'⟩) with shared := q' })
      rfl hhandle (Function.update_self ..)
    simp only [setWorker, Function.update_idem] at hend
    exact (Path.single hact).trans hend

/-- A call that comes to its end when it is left alone has a path on which it does. -/
theorem Path.of_passes (hp : Call.Passes thread h around n q c last)
    (hshared : S.shared = q) (hhandle : S.handles number = some h)
    (hworker : S.workers thread = some ⟨number, .request, c⟩) :
    Path (PromptedBy thread around) S (news thread h last)
      (S.afterCall thread number h last) := by
  obtain ⟨k, q', c', answer, hcomes, hlast, hanswer⟩ := hp.comes
  have hway := Path.of_comes hcomes hshared hhandle hworker
  have hact := PromptedBy.acts (S := { S.setWorker thread (some ⟨number, .request, c'⟩) with
    shared := q' }) (Function.update_self ..) hhandle hlast
  have hend : advance { S.setWorker thread (some ⟨number, .request, c'⟩) with shared := q' } thread
      ⟨number, .request, c'⟩ h last = S.afterCall thread number h last := by
    simp only [advance, afterCall, setWorker, setHandle, handleAfter, onward, hanswer,
      Function.update_idem]
  rw [hend] at hact
  exact hway.trans (Path.single hact)

/-- A thread that is in no call can begin one through a handle that nobody gives up. -/
theorem Path.begins (hidle : S.workers thread = none) (hhandle : S.handles number = some h)
    (hkept : ∀ t w, S.workers t = some w → w.number = number → w.purpose = .request)
    {request : Request} {buffer : ByteArray} (hfits : request.Fits) :
    Path (PromptedBy thread around) S []
      (S.setWorker thread (some ⟨number, .request, { request, buffer }⟩)) := by
  refine Path.single (.enters (.call hidle ?_ hkept hfits) rfl (fun other hbusy => ?_)
    fun _ hne => Function.update_of_ne hne _ _)
  · rw [hhandle]
    exact Option.some_ne_none _
  · refine Function.update_of_ne ?_ _ _
    rintro rfl
    exact hbusy hidle

/-- A state in which the lock is free and nobody gives a handle up: what the queue means, who is
in a call, and who sleeps. -/
structure Rest (s : Sizing) (S : System) (a : Ideal) (number : Nat) (h : Handle)
    (workers : Nat → Option Worker) (sleepers : List (Nat × Condition)) : Prop where
  inv : Inv s S a
  holder_eq : S.shared.holder = none
  orphaned_eq : S.shared.orphaned = false
  handle_eq : S.handles number = some h
  workers_eq : S.workers = workers
  sleepers_eq : S.shared.sleepers = sleepers
  purpose_eq : ∀ t w, workers t = some w → w.purpose = .request

namespace Rest

variable {t : Turn} {answer : Answer} {wake : Option Condition} {seen : Nat}

/-- A path that ends with the lock free, and with one thread in another place, comes to rest. -/
theorem of_path (hrest : Rest s S a number h workers sleepers)
    (hpath : Path (PromptedBy thread around) S shown S') (hrefines : Refines s S'.shared.region b)
    {h' : Handle} {worker : Option Worker} {sleepers' : List (Nat × Condition)}
    (hholder : S'.shared.holder = none) (hhandle : S'.handles number = some h')
    (hworkers : S'.workers = Function.update workers thread worker)
    (hsleepers : S'.shared.sleepers = sleepers') (hpurpose : ∀ w ∈ worker, w.purpose = .request) :
    Rest s S' b number h' (Function.update workers thread worker) sleepers' := by
  have hrun := hpath.prompted.run_of_prompted
  obtain ⟨b', hb⟩ := hrun.inv hrest.inv
  obtain rfl : b' = b := hb.refines.unique hrefines
  refine ⟨hb, hholder, hrun.orphaned_eq hrest.orphaned_eq, hhandle, hworkers, hsleepers,
    fun t w hw => ?_⟩
  rw [Function.update_apply] at hw
  split at hw
  · exact hpurpose w hw
  · exact hrest.purpose_eq t w hw

theorem begins (hrest : Rest s S a number h workers sleepers) (hidle : workers thread = none)
    {request : Request} {buffer : ByteArray} (hfits : request.Fits) :
    Path (PromptedBy thread around) S []
      (S.setWorker thread (some ⟨number, .request, { request, buffer }⟩)) := by
  refine Path.begins (hrest.workers_eq ▸ hidle) hrest.handle_eq (fun t w hw _ => ?_) hfits
  rw [hrest.workers_eq] at hw
  exact hrest.purpose_eq t w hw

/-- A thread can begin a call and come as far in it as the call comes when it is left alone. -/
theorem comes (hrest : Rest s S a number h workers sleepers) (hidle : workers thread = none)
    {request : Request} {buffer : ByteArray}
    (hcomes : Call.Comes thread h around n S.shared { request, buffer } q' c')
    (hfits : request.Fits) :
    Path (PromptedBy thread around) S []
      { S.setWorker thread (some ⟨number, .request, c'⟩) with shared := q' } := by
  have hpath := Path.of_comes (S := S.setWorker thread (some ⟨number, .request, _⟩)) hcomes rfl
    hrest.handle_eq (Function.update_self ..)
  simp only [setWorker, Function.update_idem] at hpath
  exact (hrest.begins hidle hfits).trans hpath

/-- A thread can make a call that its first turn ends. -/
theorem call (hrest : Rest s S a number h workers sleepers) (thread : Nat)
    (around : Surroundings) (request : Request) (buffer : ByteArray)
    (hidle : workers thread = none) (hcancelled : around.cancelled = false) (hfits : request.Fits)
    (haccepted : Call.refusal? h buffer request = none)
    (hfirst : a.first h around.herald buffer request = (t, b))
    (hverdict : t.verdict = .finish answer wake) :
    ∃ S', Path (PromptedBy thread around) S (t.news thread h request) S' ∧
      Rest s S' b number { h with nonblocking := t.nonblocking } workers
        (t.sleepers 0 sleepers) := by
  obtain ⟨hsizing, hh⟩ := hrest.inv.handles number h hrest.handle_eq
  subst hsizing
  obtain ⟨last, hpasses, hsettles, hsleepers⟩ :=
    Call.Passes.of_first_finish hrest.inv.valid hh hfits hcancelled haccepted hrest.holder_eq
      hrest.inv.refines hfirst hverdict
  have hpath := (hrest.begins hidle hfits).trans
    (Path.of_passes (S := S.setWorker thread _) hpasses rfl hrest.handle_eq
      (Function.update_self ..))
  have hnews : news thread h last = t.news thread h request := by
    simp only [news, Turn.news, hsettles.delivery_eq, hsettles.call_eq, hverdict]
  rw [List.nil_append, hnews] at hpath
  rw [afterCall_setWorker] at hpath
  have hhandle : (S.afterCall thread number h last).handles number =
      some { h with nonblocking := t.nonblocking } := by
    change Function.update S.handles number _ number = _
    rw [Function.update_self, hsettles.nonblocking_eq]
  have hworkers : (S.afterCall thread number h last).workers =
      Function.update workers thread none := by
    change Function.update S.workers thread none = _
    rw [hrest.workers_eq]
  have hafter := hrest.of_path hpath hsettles.refines hsettles.holder_eq hhandle hworkers
    (hsleepers.trans (by rw [hrest.sleepers_eq])) fun _ hw => nomatch hw
  rw [Function.update_eq_self_iff.mpr hidle.symm] at hafter
  exact ⟨_, hpath, hafter⟩

/-- A call that its first turn has wait comes to the look at the clock. -/
theorem waits (hrest : Rest s S a number h workers sleepers) (thread : Nat)
    {request : Request} {buffer : ByteArray} (hcancelled : around.cancelled = false)
    (hfits : request.Fits) (haccepted : Call.refusal? h buffer request = none)
    (hfirst : a.first h around.herald buffer request =
      ({ verdict := .wait, buffer, nonblocking := h.nonblocking }, b)) :
    ∃ q', Call.Comes thread h around 6 S.shared { request, buffer } q'
        ⟨request, buffer, .waitClock around.interruptions⟩ ∧
      Refines s q'.region b ∧ q'.sleepers = sleepers := by
  obtain ⟨hsizing, hh⟩ := hrest.inv.handles number h hrest.handle_eq
  subst hsizing
  have htagged : S.shared.tagged = true :=
    decide_eq_true hrest.inv.refines.represents.tag_eq
  obtain ⟨q', hwaits, hrefines, hsleepers⟩ :=
    Call.Comes.of_wait (q := S.shared.seize thread)
      (c := ⟨request, buffer, .inside⟩) hrest.inv.valid hh hfits haccepted hrest.inv.refines
      (congrArg some hfirst) rfl rfl rfl rfl
  have hinside : Call.Comes thread h around 3 S.shared { request, buffer }
      (S.shared.seize thread) ⟨request, buffer, .inside⟩ :=
    .inside hcancelled htagged haccepted hrest.holder_eq
  exact ⟨q', (hinside.trans hwaits).trans (.clock hcancelled), hrefines,
    hsleepers.trans hrest.sleepers_eq⟩

/-- A thread can make a call that its first turn has wait, and fall asleep if it has time. -/
theorem sleep (hrest : Rest s S a number h workers sleepers) (thread : Nat)
    (around : Surroundings) (request : Request) (buffer : ByteArray)
    (hidle : workers thread = none) (hcancelled : around.cancelled = false) (hfits : request.Fits)
    (haccepted : Call.refusal? h buffer request = none)
    (hfirst : a.first h around.herald buffer request =
      ({ verdict := .wait, buffer, nonblocking := h.nonblocking }, b))
    (hearly : Call.late around.now ⟨request, buffer, .waitClock around.interruptions⟩ = false) :
    ∃ S', Path (PromptedBy thread around) S [] S' ∧ Rest s S' b number h
      (Function.update workers thread
        (some ⟨number, .request, ⟨request, buffer, .asleep around.interruptions⟩⟩))
      (sleepers ++ [(thread, request.condition)]) := by
  obtain ⟨q', hwaits, hrefines, hsleepers⟩ := hrest.waits thread hcancelled hfits haccepted hfirst
  have hcomes := hwaits.trans (.goes (Call.step_of_pace (.sleeps rfl hearly)) trivial .here)
  have hpath := hrest.comes hidle hcomes hfits
  refine ⟨_, hpath, hrest.of_path hpath hrefines rfl hrest.handle_eq ?_ ?_ ?_⟩
  · change Function.update S.workers thread _ = _
    rw [hrest.workers_eq]
  · change q'.sleepers ++ _ = _
    rw [hsleepers]
  · rintro w ⟨⟩
    rfl

/-- A call that fails where it stands is over. -/
theorem falters (hrest : Rest s S a number h workers sleepers) {request : Request}
    {buffer : ByteArray} {error : SystemError} {point : Point} {r : Region} {holder : Option Nat}
    (hidle : workers thread = none)
    (hcomes : Call.Comes thread h around n S.shared { request, buffer } q'
      ⟨request, buffer, point⟩) (hfits : request.Fits)
    (hfalter : Call.falter thread h error q' ⟨request, buffer, point⟩ =
      some { call := ⟨request, buffer, .answered (.error (.system error))⟩
             shared := { q' with region := r, holder }, nonblocking := h.nonblocking }) :
    ∃ S', Run S [.answered thread h.identity request (.error (.system error)) buffer] S' := by
  have hpath := hrest.comes hidle hcomes hfits
  have hstep := Step.falter
    (S := { S.setWorker thread (some ⟨number, .request, ⟨request, buffer, point⟩⟩) with
      shared := q' }) (Function.update_self ..) hrest.handle_eq hfalter
  exact ⟨_, hpath.prompted.run_of_prompted.step hstep⟩

/-- A thread can make a call for which the lock fails. -/
theorem barred (hrest : Rest s S a number h workers sleepers) (thread : Nat)
    (around : Surroundings) (request : Request) (buffer : ByteArray) (error : SystemError)
    (hidle : workers thread = none) (hcancelled : around.cancelled = false) (hfits : request.Fits)
    (haccepted : Call.refusal? h buffer request = none) :
    ∃ S', Run S [.answered thread h.identity request (.error (.system error)) buffer] S' := by
  have htagged : S.shared.tagged = true := decide_eq_true hrest.inv.refines.represents.tag_eq
  have hcomes : Call.Comes thread h around 2 S.shared { request, buffer } S.shared
      ⟨request, buffer, .atDoor around.interruptions⟩ :=
    .atDoor (Call.arrive_of_accepted hcancelled htagged haccepted) htagged
  exact hrest.falters hidle hcomes hfits rfl

/-- A thread can make a call that its first turn has wait, and whose wait fails. -/
theorem fails (hrest : Rest s S a number h workers sleepers) (thread : Nat)
    (around : Surroundings) (request : Request) (buffer : ByteArray) (error : SystemError)
    (hidle : workers thread = none) (hcancelled : around.cancelled = false) (hfits : request.Fits)
    (haccepted : Call.refusal? h buffer request = none)
    (hfirst : a.first h around.herald buffer request =
      ({ verdict := .wait, buffer, nonblocking := h.nonblocking }, b)) :
    ∃ S', Run S [.answered thread h.identity request (.error (.system error)) buffer] S' := by
  obtain ⟨q', hwaits, -⟩ := hrest.waits thread hcancelled hfits haccepted hfirst
  obtain ⟨r, hfail⟩ := Call.takeTurn_fail h error q'
    ⟨request, buffer, .waitClock around.interruptions⟩
  exact hrest.falters hidle hwaits hfits (congrArg some hfail)

/-- The slice of a sleeping thread can end. -/
theorem expires {request : Request} {buffer : ByteArray}
    (hrest : Rest s S a number h workers sleepers) (thread : Nat)
    (hasleep : workers thread = some ⟨number, .request, ⟨request, buffer, .asleep seen⟩⟩)
    (hsleeps : (thread, request.condition) ∈ sleepers) :
    ∃ q, Call.expire thread S.shared ⟨request, buffer, .asleep seen⟩ =
        some (q, ⟨request, buffer, .roused seen false⟩) ∧
      Rest s { S.setWorker thread
          (some ⟨number, .request, ⟨request, buffer, .roused seen false⟩⟩) with shared := q } a
        number h
        (Function.update workers thread
          (some ⟨number, .request, ⟨request, buffer, .roused seen false⟩⟩))
        (sleepers.erase (thread, request.condition)) := by
  have hworker := hrest.workers_eq ▸ hasleep
  have hexpire : Call.expire thread S.shared ⟨request, buffer, .asleep seen⟩ =
      some ({ S.shared with sleepers := S.shared.sleepers.erase (thread, request.condition) },
        ⟨request, buffer, .roused seen false⟩) := by
    have hmem : S.shared.sleepers.contains (thread, request.condition) = true := by
      rw [hrest.sleepers_eq]
      exact List.contains_iff_mem.mpr hsleeps
    simp only [Call.expire, hmem, if_true]
  obtain ⟨b, hb, -⟩ := (Step.expire hworker hexpire).effect hrest.inv
  obtain rfl : b = a := hb.refines.unique hrest.inv.refines
  refine ⟨_, hexpire, hb, hrest.holder_eq, hrest.orphaned_eq, hrest.handle_eq, ?_, ?_,
    fun t w hw => ?_⟩
  · rw [← hrest.workers_eq]
    rfl
  · rw [← hrest.sleepers_eq]
  · rw [Function.update_apply] at hw
    split at hw
    · cases hw
      rfl
    · exact hrest.purpose_eq t w hw

/-- A thread that has been woken can come to look at the queue again. -/
theorem looks {request : Request} {buffer : ByteArray}
    (hrest : Rest s S a number h workers sleepers) (thread : Nat) (around : Surroundings)
    (hasleep : workers thread = some ⟨number, .request, ⟨request, buffer, .asleep seen⟩⟩)
    (hwoken : (thread, request.condition) ∉ sleepers) :
    ∃ S', Path (PromptedBy thread around) S [] S' ∧ Inv s S' a ∧
      S'.workers thread = some ⟨number, .request, ⟨request, buffer, .looking⟩⟩ ∧
      S'.handles number = some h := by
  have hlooking : Call.Comes thread h around 2 S.shared ⟨request, buffer, .asleep seen⟩
      (S.shared.seize thread) ⟨request, buffer, .looking⟩ :=
    .looking (hrest.sleepers_eq ▸ hwoken) hrest.holder_eq
  have hpath := Path.of_comes hlooking rfl hrest.handle_eq (hrest.workers_eq ▸ hasleep)
  obtain ⟨b, hb⟩ := hpath.prompted.run_of_prompted.inv hrest.inv
  obtain rfl : b = a := hb.refines.unique hrest.inv.refines
  exact ⟨_, hpath, hb, Function.update_self .., hrest.handle_eq⟩

/-- A thread that has been woken can go on with its call if its next turn ends it. -/
theorem woken {request : Request} {buffer : ByteArray}
    (hrest : Rest s S a number h workers sleepers) (thread : Nat) (around : Surroundings)
    (hasleep : workers thread = some ⟨number, .request, ⟨request, buffer, .asleep seen⟩⟩)
    (hwoken : (thread, request.condition) ∉ sleepers)
    (hagain : a.again h buffer request = (t, b))
    (hverdict : t.verdict = .finish answer wake) :
    ∃ S', Path (PromptedBy thread around) S (t.news thread h request) S' ∧
      Rest s S' b number { h with nonblocking := t.nonblocking }
        (Function.update workers thread none) (t.sleepers 0 sleepers) := by
  obtain ⟨hsizing, hh⟩ := hrest.inv.handles number h hrest.handle_eq
  subst hsizing
  have hworker : S.workers thread =
      some ⟨number, .request, ⟨request, buffer, .asleep seen⟩⟩ := hrest.workers_eq ▸ hasleep
  have hw := hrest.inv.workers thread _ hworker
  have hturn : a.turn h around.herald ⟨request, buffer, .looking⟩ = some (t, b) :=
    congrArg some hagain
  obtain ⟨last, hpasses, hsettles, hsleepers⟩ :=
    Call.Passes.of_finish (q := S.shared.seize thread)
      (c := ⟨request, buffer, .looking⟩) hrest.inv.valid hh hw.fits
      (hw.admitted h rfl trivial) hrest.inv.refines hturn hverdict
  have hlooking : Call.Comes thread h around 2 S.shared ⟨request, buffer, .asleep seen⟩
      (S.shared.seize thread) ⟨request, buffer, .looking⟩ :=
    .looking (hrest.sleepers_eq ▸ hwoken) hrest.holder_eq
  have hpath := Path.of_passes (hlooking.passes hpasses) rfl hrest.handle_eq hworker
  have hnews : news thread h last = t.news thread h request := by
    simp only [news, Turn.news, hsettles.delivery_eq, hsettles.call_eq, hverdict]
  rw [hnews] at hpath
  refine ⟨_, hpath, hrest.of_path hpath hsettles.refines hsettles.holder_eq ?_ ?_
    (hsleepers.trans (by rw [Shared.sleepers_seize, hrest.sleepers_eq])) fun _ hw => nomatch hw⟩
  · change Function.update S.handles number _ number = _
    rw [Function.update_self, hsettles.nonblocking_eq]
  · change Function.update S.workers thread none = _
    rw [hrest.workers_eq]

/-- A thread that has been woken for nothing comes to the end of its next look at the clock. -/
theorem vain {request : Request} {buffer : ByteArray}
    (hrest : Rest s S a number h workers sleepers) (thread : Nat) (around : Surroundings)
    (hasleep : workers thread = some ⟨number, .request, ⟨request, buffer, .asleep seen⟩⟩)
    (hwoken : (thread, request.condition) ∉ sleepers) (hcancelled : around.cancelled = false)
    (hagain : a.again h buffer request =
      ({ verdict := .wait, buffer, nonblocking := h.nonblocking }, b)) :
    ∃ S', Path (PromptedBy thread around) S [] S' ∧ Inv s S' b ∧
      S'.workers thread =
        some ⟨number, .request, ⟨request, buffer, .waitClock around.interruptions⟩⟩ ∧
      S'.handles number = some h := by
  obtain ⟨hsizing, hh⟩ := hrest.inv.handles number h hrest.handle_eq
  subst hsizing
  have hworker := hrest.workers_eq ▸ hasleep
  have hw := hrest.inv.workers thread _ hworker
  have hlooking : Call.Comes thread h around 2 S.shared ⟨request, buffer, .asleep seen⟩
      (S.shared.seize thread) ⟨request, buffer, .looking⟩ :=
    .looking (hrest.sleepers_eq ▸ hwoken) hrest.holder_eq
  obtain ⟨q', hwaits, hrefines, -⟩ :=
    Call.Comes.of_wait (q := S.shared.seize thread)
      (c := ⟨request, buffer, .looking⟩) hrest.inv.valid hh hw.fits (hw.admitted h rfl trivial)
      hrest.inv.refines (congrArg some hagain) rfl rfl rfl rfl
  have hpath := Path.of_comes ((hlooking.trans hwaits).trans (Call.Comes.clock hcancelled)) rfl
    hrest.handle_eq hworker
  obtain ⟨b', hb⟩ := hpath.prompted.run_of_prompted.inv hrest.inv
  obtain rfl : b' = b := hb.refines.unique hrefines
  exact ⟨_, hpath, hb, Function.update_self .., hrest.handle_eq⟩

end Rest

/-- Somebody can open a handle on a queue that was just made. -/
theorem exists_rest (hm : Made s q) (thread : Nat) (around : Surroundings)
    (number identity : Nat) (nonblocking : Bool) (hidentity : 0 < identity ∧ identity < 2 ^ 32) :
    ∃ S, Path (PromptedBy thread around) (idle q) [] S ∧
      Rest s S {} number ⟨s, identity, nonblocking⟩ (fun _ => none) [] := by
  obtain ⟨hs, hfresh⟩ := hm.fresh
  have hi := Inv.idle hs hfresh
  have hattach : Step (idle q) []
      ((idle q).setHandle number (some ⟨s, identity, nonblocking⟩)) :=
    .attach rfl hidentity (run_preamble hs hi.refines)
  obtain ⟨a, ha, heffect⟩ := hattach.effect hi
  have hsame : a = {} := ha.refines.unique hi.refines
  subst hsame
  exact ⟨_, Path.single (.enters hattach rfl (fun _ _ => rfl) fun _ _ => rfl), ha,
    hfresh.holder_eq, hfresh.orphaned_eq, Function.update_self .., rfl, hfresh.sleepers_eq,
    fun _ _ hw => nomatch hw⟩

/-- A system in which nobody is in a call and the lock is free, with a handle that can be used. -/
structure Calm (s : Sizing) (S : System) (a : Ideal) (number : Nat) (h : Handle) : Prop where
  inv : Inv s S a
  workers_eq : S.workers = fun _ => none
  holder_eq : S.shared.holder = none
  orphaned_eq : S.shared.orphaned = false
  handle_eq : S.handles number = some h

theorem exists_calm (hm : Made s q) (number identity : Nat) (nonblocking : Bool)
    (hidentity : 0 < identity ∧ identity < 2 ^ 32) :
    ∃ S, Run (idle q) [] S ∧ Calm s S {} number ⟨s, identity, nonblocking⟩ := by
  obtain ⟨S, hpath, hrest⟩ := exists_rest hm 0 ⟨false, 0, 0, .smooth⟩ number identity
    nonblocking hidentity
  exact ⟨S, hpath.prompted.run_of_prompted, hrest.inv, hrest.workers_eq, hrest.holder_eq,
    hrest.orphaned_eq, hrest.handle_eq⟩

/-- A state in which nobody is in a call and the lock is free is at rest. -/
theorem Calm.rest (hcalm : Calm s S a number h) :
    Rest s S a number h (fun _ => none) S.shared.sleepers :=
  ⟨hcalm.inv, hcalm.holder_eq, hcalm.orphaned_eq, hcalm.handle_eq, hcalm.workers_eq, rfl,
    fun _ _ hw => nomatch hw⟩

/-- A call that its first turn ends can be made in a calm system, which is calm again when it
is over. -/
theorem Calm.call (hcalm : Calm s S a number h) (thread : Nat) (around : Surroundings)
    (request : Request) (buffer : ByteArray) {t : Turn} {answer : Answer} {wake : Option Condition}
    (hcancelled : around.cancelled = false) (hfits : request.Fits)
    (haccepted : Call.refusal? h buffer request = none)
    (hfirst : a.first h around.herald buffer request = (t, b))
    (hverdict : t.verdict = .finish answer wake) :
    ∃ S', Run S (t.news thread h request) S' ∧
      Calm s S' b number { h with nonblocking := t.nonblocking } := by
  obtain ⟨S', hpath, hrest⟩ := hcalm.rest.call thread around request buffer rfl hcancelled hfits
    haccepted hfirst hverdict
  exact ⟨S', hpath.prompted.run_of_prompted, hrest.inv, hrest.workers_eq, hrest.holder_eq,
    hrest.orphaned_eq, hrest.handle_eq⟩

end MappedQueue.System
