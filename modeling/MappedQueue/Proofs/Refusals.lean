import MappedQueue.Proofs.Sleepers
import MappedQueue.Proofs.Worlds

/-!
# Why calls are refused

A call looks at its token, at the interruptions and at the clock at different moments, and
takes its turns in between. Whatever it gives as the reason when it is refused has been the case
at some moment since it began, and the queue is full or empty at the moment at which a call
refuses to wait.

A thread that is cancelled gets no transfer done that it starts, and does not fall asleep any
more once it has looked at its token. Nobody else notices.
-/

namespace MappedQueue

variable {s : Sizing} {q q' : Shared} {a b : Ideal} {W W' W₁ V V' : World}
  {shown history : List Happening} {thread me pick identity : Nat} {w w' : Worker} {h : Handle}
  {c c' : Call} {around : Surroundings} {herald : Herald} {next : Advance} {error : Error}
  {request : Request} {buffer : ByteArray} {t : Turn} {flag : Bool}

/-- The number of interruptions that a call remembers. -/
def Point.seen? : Point → Option Nat
  | .atDoor seen | .doorCancelled seen | .doorInterrupted seen => some seen
  | .waitClock seen | .asleep seen | .roused seen _ => some seen
  | .backCancelled seen | .backInterrupted seen => some seen
  | _ => none

/-- Whether a call may have to wait for something else than the lock. -/
def Request.mayWait : Request → Bool
  | .send _ _ _ | .receive _ | .linger _ _ _ => true
  | _ => false

/-- What a call that meets with a setback finds around itself. -/
def Setback.Found (around : Surroundings) (c : Call) : Setback → Prop
  | .timedOut => ∃ deadline ∈ c.request.deadline, deadline ≤ around.now
  | .cancelled => around.cancelled = true
  | .interrupted => ∃ seen ∈ c.point.seen?, around.interruptions ≠ seen

/-- What a call that is refused without a turn finds around itself. -/
def Error.Found (around : Surroundings) (c : Call) : Error → Prop
  | .cancelled => around.cancelled = true
  | .interrupted =>
    c.request.transfers = true ∧ ∃ seen ∈ c.point.seen?, around.interruptions ≠ seen
  | .wouldBlock | .timedOut => False
  | _ => True

namespace Call

/-- What a call knows after a step. -/
structure Learns (h : Handle) (around : Surroundings) (c : Call) (next : Advance) : Prop where
  seen : ∀ seen ∈ next.call.point.seen?, seen = around.interruptions ∨ seen ∈ c.point.seen?
  setback : ∀ setback, next.call.point = .quitting setback → setback.Found around c
  refused : ∀ error, next.call.point = .answered (.error error) →
    c.program h around.herald ≠ none ∨ error.Found around c

theorem takeTurn_point (turn : Access Turn) :
    (∃ fault, (c.takeTurn h pick q turn).call.point = .broken fault) ∨
      (c.takeTurn h pick q turn).call.point = .waitCancelled ∨
      ∃ answer, (c.takeTurn h pick q turn).call.point = .answered answer := by
  unfold takeTurn
  split
  · exact Or.inl ⟨_, rfl⟩
  · split
    · exact Or.inr (Or.inl rfl)
    · exact Or.inr (Or.inr ⟨_, rfl⟩)

/-- A call that falls asleep has just looked at the clock, and changes no byte. -/
theorem clock_of_asleep (hstep : c.step me h around pick q = some next)
    (hasleep : next.call.point.IsAsleep) :
    ∃ seen, c.point = .waitClock seen ∧ next.shared.region = q.region := by
  cases step_move hstep with
  | goes _ _ _ hawake => exact absurd hasleep hawake
  | sleeps hclock => exact ⟨_, hclock, rfl⟩
  | turns =>
    obtain ⟨fault, hafter⟩ | hafter | ⟨answer, hafter⟩ := takeTurn_point (c := c) (h := h) _ <;>
      rw [hafter] at hasleep <;> exact hasleep.elim

theorem found_of_refusal (hrefusal : refusal? h buffer request = some error) :
    error.Found around c := by
  cases request <;> simp only [refusal?] at hrefusal
  case send =>
    split at hrefusal
    · cases hrefusal
      trivial
    · split at hrefusal <;> cases hrefusal
      trivial
  case receive =>
    split at hrefusal <;> cases hrefusal
    trivial
  all_goals cases hrefusal

theorem found_of_arrive (harrive : c.arrive h around q = .answered (.error error)) :
    error.Found around c := by
  unfold arrive at harrive
  split at harrive
  · cases harrive
  · split at harrive
    · cases harrive
      assumption
    · split at harrive
      · cases harrive
        trivial
      · split at harrive
        · cases harrive
          exact found_of_refusal ‹_›
        · cases harrive

theorem found_of_late (hlate : c.late around.now = true) : Setback.timedOut.Found around c := by
  unfold late at hlate
  split at hlate
  · rename_i deadline hdeadline
    exact ⟨deadline, hdeadline, of_decide_eq_true hlate⟩
  · cases hlate

theorem transfers_of_lockPolicy (hpolicy : request.lockPolicy = .fail) :
    request.transfers = true := by
  unfold Request.lockPolicy at hpolicy
  split at hpolicy
  · assumption
  · cases hpolicy

namespace Learns

variable {point : Point} {setback : Setback}

/-- A step of a call that is not over and has not made up its mind to give up. -/
theorem goes (hseen : ∀ seen ∈ point.seen?, seen = around.interruptions ∨ seen ∈ c.point.seen?)
    (hquit : ∀ setback, point ≠ .quitting setback) (hover : ∀ answer, point ≠ .answered answer) :
    Learns h around c { call := { c with point }, shared := q, nonblocking := h.nonblocking } :=
  ⟨hseen, fun setback hq => absurd hq (hquit setback), fun _ ha => absurd ha (hover _)⟩

theorem count (hseen : point.seen? = some around.interruptions)
    (hquit : ∀ setback, point ≠ .quitting setback) (hover : ∀ answer, point ≠ .answered answer) :
    Learns h around c { call := { c with point }, shared := q, nonblocking := h.nonblocking } :=
  .goes (fun _ hmem => Or.inl (Option.some.inj (hmem.symm.trans hseen))) hquit hover

theorem keep (hseen : point.seen? = c.point.seen?) (hquit : ∀ setback, point ≠ .quitting setback)
    (hover : ∀ answer, point ≠ .answered answer) :
    Learns h around c { call := { c with point }, shared := q, nonblocking := h.nonblocking } :=
  .goes (fun _ hmem => Or.inr (hseen ▸ hmem)) hquit hover

theorem quit (hfound : setback.Found around c) :
    Learns h around c
      { call := { c with point := .quitting setback }, shared := q, nonblocking := h.nonblocking } :=
  ⟨nofun, fun other hq => by cases hq; exact hfound, nofun⟩

theorem refuse (hfound : error.Found around c) :
    Learns h around c
      { call := { c with point := .answered (.error error) }, shared := q,
        nonblocking := h.nonblocking } :=
  ⟨nofun, nofun, fun other ha => Or.inr (by cases ha; exact hfound)⟩

theorem turn {turn : Access Turn} (hprogram : c.program h around.herald = some turn) :
    Learns h around c (c.takeTurn h pick q turn) := by
  constructor
  · intro seen hseen
    obtain ⟨fault, hpoint⟩ | hpoint | ⟨answer, hpoint⟩ := takeTurn_point turn <;>
      rw [hpoint] at hseen <;> cases hseen
  · intro setback hquitting
    obtain ⟨fault, hpoint⟩ | hpoint | ⟨answer, hpoint⟩ := takeTurn_point turn <;>
      rw [hpoint] at hquitting <;> cases hquitting
  · intro error _
    rw [hprogram]
    exact Or.inl nofun

end Learns

theorem step_learns (hstep : c.step me h around pick q = some next) : Learns h around c next := by
  cases pace_of_step hstep with
  | goes hpoint hway =>
    cases hway with
    | refused harrive => exact .refuse (found_of_arrive harrive)
    | untagged => exact .refuse trivial
    | doorCancelled hcancelled => exact .refuse hcancelled
    | doorInterrupted hcame hpolicy =>
      exact .refuse ⟨transfers_of_lockPolicy hpolicy, _, by rw [hpoint]; rfl, hcame⟩
    | waitCancelled hcancelled | backCancelled hcancelled => exact .quit hcancelled
    | waitLate hlate | backLate hlate => exact .quit (found_of_late hlate)
    | backInterrupted hcame => exact .quit ⟨_, by rw [hpoint]; rfl, hcame⟩
    | tagged | doorAgain | waitCounted => exact .count rfl nofun nofun
    | doorOn | woken | backOn => exact .keep (by rw [hpoint]; rfl) nofun nofun
    | accepted | waitOn | backCalm | backEarly => exact .goes nofun nofun nofun
  | enters => exact .goes nofun nofun nofun
  | @returns seen woken hpoint =>
    cases woken || q.orphaned
    · exact .keep (by rw [hpoint]; rfl) nofun nofun
    · exact .goes nofun nofun nofun
  | sleeps hpoint => exact .keep (by rw [hpoint]; rfl) nofun nofun
  | turns hturn => exact .turn hturn

/-- A call does not stay at a point from which it takes a step. -/
theorem point_ne_of_step (hstep : c.step me h around pick q = some next) :
    next.call.point ≠ c.point := by
  cases pace_of_step hstep with
  | goes hpoint hway =>
    rw [hpoint]
    cases hway <;> exact nofun
  | enters hpoint | sleeps hpoint =>
    rw [hpoint]
    exact nofun
  | @returns seen woken hpoint =>
    rw [hpoint]
    cases woken || q.orphaned <;> exact nofun
  | turns hturn =>
    obtain hpoint | hpoint | ⟨setback, hpoint⟩ := point_of_program hturn <;>
      obtain ⟨fault, hafter⟩ | hafter | ⟨answer, hafter⟩ := takeTurn_point (c := c) (h := h) _ <;>
        rw [hpoint, hafter] <;> exact nofun

/-- The end of a slice is no time to look around. -/
theorem expire_keeps (he : c.expire me q = some (q', c')) :
    c'.request = c.request ∧ c'.point.seen? = c.point.seen? ∧ c'.point.waits = c.point.waits ∧
      ∀ setback, c'.point ≠ .quitting setback := by
  cases expiry_of_expire he with
  | atDoor hpoint =>
    rw [hpoint]
    exact ⟨rfl, rfl, rfl, nofun⟩
  | asleep hpoint =>
    rw [hpoint]
    exact ⟨rfl, rfl, rfl, nofun⟩

theorem step_request (hstep : c.step me h around pick q = some next) :
    next.call.request = c.request := by
  cases step_move hstep with
  | goes => rfl
  | sleeps => rfl
  | turns =>
    unfold takeTurn
    split
    · rfl
    · split <;> rfl

end Call

namespace Ideal

@[simp] theorem messages_fired (a : Ideal) : a.fired.messages = a.messages := by
  unfold fired
  split <;> rfl

/-- Only transfers and lingering calls come to wait. -/
theorem mayWait_of_turn (ht : a.turn h herald c = some (t, b)) (hwait : t.verdict = .wait)
    (hc : c.point.waits = true → c.request.mayWait = true) : c.request.mayWait = true := by
  obtain ⟨-, rfl, -⟩ | ⟨hpoint, -⟩ | ⟨setback, hpoint, -⟩ := turn_cases ht
  · cases hrequest : c.request with
    | notify event =>
      cases event with
      | none =>
        rw [hrequest] at hwait
        cases hwait
      | some event =>
        rw [hrequest, first] at hwait
        split at hwait <;> cases hwait
    | attributes | setNonblocking on =>
      rw [hrequest] at hwait
      cases hwait
    | _ => rfl
  · exact hc (by rw [hpoint]; rfl)
  · exact hc (by rw [hpoint]; rfl)

/-- Why a turn refuses a call. -/
inductive Refuses (h : Handle) (c : Call) (a : Ideal) : Error → Prop
  | full (htransfers : c.request.transfers = true) (hmode : h.nonblocking = true)
      (hnot : ¬ c.request.condition.Holds h.sizing a.messages.length) : Refuses h c a .wouldBlock
  | busy : Refuses h c a .busy
  | setback {setback : Setback} (hpoint : c.point = .quitting setback)
      (hrequest : c.request.mayWait = true → c.request.transfers = true) :
      Refuses h c a setback.error

theorem refuses_trySend {m : Message} {wake : Option Condition} {priority : Nat}
    {deadline : Option Nat} {bytes : ByteArray} (hrequest : c.request = .send bytes priority deadline)
    (hmessages : b.messages = a.messages)
    (hverdict : (b.trySend h m).1 = .finish (.error error) wake) : Refuses h c a error := by
  unfold trySend at hverdict
  rw [hmessages] at hverdict
  split at hverdict
  · cases hverdict
  · rename_i hfull
    cases hmode : h.nonblocking <;> rw [hmode] at hverdict <;> cases hverdict
    exact .full (by rw [hrequest]; rfl) hmode (by rw [hrequest]; exact hfull)

theorem refuses_of_turn {wake : Option Condition} (ht : a.turn h herald c = some (t, b))
    (hverdict : t.verdict = .finish (.error error) wake) : Refuses h c a error := by
  obtain ⟨-, rfl, -⟩ | ⟨-, rfl, -⟩ | ⟨setback, hpoint, rfl, -⟩ := turn_cases ht
  · cases hrequest : c.request with
    | send bytes priority deadline =>
      rw [hrequest] at hverdict
      exact refuses_trySend hrequest a.messages_fired hverdict
    | receive deadline =>
      rw [hrequest, first] at hverdict
      cases hmessages : a.messages with
      | nil =>
        cases hmode : h.nonblocking <;> simp only [hmessages, hmode] at hverdict <;> cases hverdict
        refine .full (by rw [hrequest]; rfl) hmode ?_
        rw [hrequest, hmessages]
        exact Nat.lt_irrefl 0
      | cons m rest =>
        simp only [hmessages] at hverdict
        cases hverdict
    | notify event =>
      cases event with
      | none =>
        rw [hrequest] at hverdict
        cases hverdict
      | some event =>
        rw [hrequest, first] at hverdict
        split at hverdict <;> cases hverdict
        exact .busy
    | _ =>
      rw [hrequest] at hverdict
      cases hverdict
  · cases hrequest : c.request with
    | send bytes priority deadline =>
      rw [hrequest] at hverdict
      exact refuses_trySend hrequest rfl hverdict
    | receive deadline =>
      rw [hrequest, again] at hverdict
      cases hmessages : a.messages <;> simp only [hmessages] at hverdict <;> cases hverdict
    | _ =>
      rw [hrequest] at hverdict
      cases hverdict
  · cases hrequest : c.request <;> rw [hrequest] at hverdict <;> cases hverdict
    all_goals exact .setback hpoint (by rw [hrequest]; exact id)

/-- A transfer that gives up is over with what it has met with. -/
theorem turn_quitting (a : Ideal) (h : Handle) (herald : Herald) (buffer : ByteArray)
    (setback : Setback) (htransfers : request.transfers = true) :
    ∃ b, a.turn h herald ⟨request, buffer, .quitting setback⟩ =
      some ({ verdict := .finish (.error setback.error) none, buffer,
              nonblocking := h.nonblocking }, b) := by
  cases request <;> first | exact ⟨_, rfl⟩ | cases htransfers

/-- Whoever gives up moves no message. -/
theorem messages_of_quitting {setback : Setback} (ht : a.turn h herald c = some (t, b))
    (hpoint : c.point = .quitting setback) : b.messages = a.messages := by
  obtain ⟨hother, -⟩ | ⟨hother, -⟩ | ⟨other, -, -, rfl⟩ := turn_cases ht
  · cases hother.symm.trans hpoint
  · cases hother.symm.trans hpoint
  · cases c.request <;> rfl

end Ideal

namespace Point

/-- Whether a call has looked at its token and is about to fall asleep. -/
def Nods : Point → Prop
  | .waitInterrupted | .waitClock _ => True
  | _ => False

theorem Nods.drowsy {point : Point} (hn : point.Nods) : point.Drowsy := by
  cases point <;> first | exact hn | trivial

end Point

namespace Call

end Call

/-- Handles are given up without transfers. -/
theorem Worker.Sane.purpose_eq (hw : w.Sane s) (htransfers : w.call.request.transfers = true) :
    w.purpose = .request := by
  by_contra hne
  rw [hw.withdraws hne] at htransfers
  cases htransfers

namespace World

/-- Whether something was the case while a thread was in its call. -/
def Sometime (thread : Nat) (W₁ W : World) (P : World → Prop) : Prop :=
  ∃ V, During thread W₁ V ∧ During thread V W ∧ P V

/-- What there was to meet with a setback for. -/
def Met (thread : Nat) (W₁ W : World) (request : Request) : Setback → Prop
  | .timedOut => ∃ deadline ∈ request.deadline, Sometime thread W₁ W (deadline ≤ ·.now)
  | .cancelled => Sometime thread W₁ W (·.cancelled thread = true)
  | .interrupted => W₁.count thread < W.count thread

/-- What a call that began in `W₁` has in mind in `W`. -/
structure Recalls (thread : Nat) (W₁ W : World) (c : Call) : Prop where
  seen : ∀ seen ∈ c.point.seen?, ∃ count, W₁.count thread ≤ count ∧ count ≤ W.count thread ∧
    seen = count % 2 ^ 64
  setback : ∀ setback, c.point = .quitting setback → Met thread W₁ W c.request setback
  mayWait : c.point.waits = true → c.request.mayWait = true

theorem Sometime.mono {P : World → Prop} (hs : Sometime thread W₁ V P)
    (hd : During thread V W) : Sometime thread W₁ W P := by
  obtain ⟨U, hbefore, hafter, hp⟩ := hs
  exact ⟨U, hbefore, hafter.trans hd, hp⟩

theorem Met.mono {setback : Setback} (hmet : Met thread W₁ V request setback)
    (hd : During thread V W) : Met thread W₁ W request setback := by
  cases setback with
  | timedOut =>
    obtain ⟨deadline, hdeadline, hreached⟩ := hmet
    exact ⟨deadline, hdeadline, hreached.mono hd⟩
  | cancelled => exact Sometime.mono hmet hd
  | interrupted => exact Nat.lt_of_lt_of_le hmet (hd.count_le thread)

theorem Recalls.mono (hc : Recalls thread W₁ V c) (hd : During thread V W) :
    Recalls thread W₁ W c where
  seen seen hseen := by
    obtain ⟨count, hle, hle', hcount⟩ := hc.seen seen hseen
    exact ⟨count, hle, Nat.le_trans hle' (hd.count_le thread), hcount⟩
  setback setback hpoint := (hc.setback setback hpoint).mono hd
  mayWait := hc.mayWait

theorem recalls_arriving (hpoint : c.point = .arriving) : Recalls thread W₁ W c := by
  constructor
  · intro seen hseen
    rw [hpoint] at hseen
    cases hseen
  · intro setback hquitting
    rw [hpoint] at hquitting
    cases hquitting
  · intro hwaits
    rw [hpoint] at hwaits
    cases hwaits

/-- An interruption that a call sees has come after the one that it remembers. -/
theorem count_lt_of_ne {count count' : Nat} (hle : W₁.count thread ≤ count)
    (hle' : count ≤ count') (hne : count' % 2 ^ 64 ≠ count % 2 ^ 64) :
    W₁.count thread < count' := by
  have hlt : count ≠ count' := by
    intro heq
    exact hne (by rw [heq])
  omega

theorem Recalls.count_lt {seen : Nat} (hc : Recalls thread W₁ W c) (hseen : seen ∈ c.point.seen?)
    (hne : (W.around thread herald).interruptions ≠ seen) : W₁.count thread < W.count thread := by
  obtain ⟨count, hle, hle', rfl⟩ := hc.seen seen hseen
  exact count_lt_of_ne hle hle' hne

theorem Recalls.found {setback : Setback} (hc : Recalls thread W₁ W c)
    (hd : During thread W₁ W) (hfound : setback.Found (W.around thread herald) c) :
    Met thread W₁ W c.request setback := by
  cases setback with
  | timedOut =>
    obtain ⟨deadline, hdeadline, hreached⟩ := hfound
    exact ⟨deadline, hdeadline, W, hd, .refl, hreached⟩
  | cancelled => exact ⟨W, hd, .refl, hfound⟩
  | interrupted =>
    obtain ⟨seen, hseen, hne⟩ := hfound
    exact hc.count_lt hseen hne

theorem Recalls.step (hm : Made s q) (hr : Reachable q W) (hc : Recalls thread W₁ W w.call)
    (hd : During thread W₁ W)
    (hworker : W.system.workers thread = some w) (hhandle : W.system.handles w.number = some h)
    (hstep : w.call.step thread h (W.around thread herald) pick W.system.shared = some next) :
    Recalls thread W₁ W next.call := by
  have hlearns := Call.step_learns hstep
  constructor
  · intro seen hseen
    obtain rfl | hold := hlearns.seen seen hseen
    · exact ⟨W.count thread, hd.count_le thread, Nat.le_refl _, rfl⟩
    · exact hc.seen seen hold
  · intro setback hquitting
    rw [Call.step_request hstep]
    exact hc.found hd (hlearns.setback setback hquitting)
  · intro hwaits
    rw [Call.step_request hstep]
    obtain ⟨a, hi⟩ := hr.inv hm
    cases ht : a.turn h (W.around thread herald).herald w.call with
    | none =>
      cases Call.step_move hstep with
      | goes _ hsame => exact hc.mayWait (hsame.symm.trans hwaits)
      | sleeps hpoint => exact hc.mayWait (by rw [hpoint]; rfl)
      | turns hturn =>
        obtain ⟨t, b, hsome⟩ := Call.turn_of_program hturn a
        rw [ht] at hsome
        cases hsome
    | some taken =>
      obtain ⟨t, b⟩ := taken
      obtain ⟨hcall, -⟩ := hi.step_turn hworker hhandle ht hstep
      rw [hcall] at hwaits
      refine Ideal.mayWait_of_turn ht ?_ hc.mayWait
      obtain ⟨hverdict, -⟩ | ⟨answer, wake, -, hanswered⟩ := t.point_cases
      · exact hverdict
      · rw [hanswered] at hwaits
        cases hwaits

theorem Recalls.expire (hc : Recalls thread W₁ W c) (he : c.expire me q = some (q', c')) :
    Recalls thread W₁ W c' := by
  obtain ⟨hrequest, hseen, hwaits, hquit⟩ := Call.expire_keeps he
  constructor
  · rw [hseen]
    exact hc.seen
  · exact fun setback hquitting => absurd hquitting (hquit setback)
  · rw [hwaits, hrequest]
    exact hc.mayWait

/-- Whatever a call knows since it began in `W₁`, it knows from there. -/
theorem Began.recalls (hm : Made s q) (hr : Reachable q W₁) (hb : Began thread W₁ W) :
    ∀ w, W.system.workers thread = some w → Recalls thread W₁ W w.call := by
  obtain ⟨⟨w₁, hw₁, hpoint⟩, hd⟩ := hb
  induction hd with
  | refl =>
    intro w hw
    cases hw₁.symm.trans hw
    exact recalls_arriving hpoint
  | @tail V W hbefore hstays ih =>
    intro w' hw'
    have hd : During thread V W := .single hstays
    have hreach : Reachable q V := hr.trans (During.leads hbefore)
    obtain ⟨⟨shown, hstep⟩, -⟩ := hstays
    cases hstep.origin hm hreach hw' with
    | begins hnew => exact recalls_arriving hnew
    | stays hw => exact (ih w' hw).mono hd
    | acts hw hhandle hact hcall =>
      rw [hcall]
      exact ((ih _ hw).step hm hreach hbefore hw hhandle hact).mono hd
    | expires hw hexpire => exact ((ih _ hw).expire hexpire).mono hd

/-- What has been the case when a call that began in `W₁` is refused in `W`. -/
def Justified (thread : Nat) (W₁ W : World) (request : Request) : Error → Prop
  | .wouldBlock => request.transfers = true ∧ ∃ w h, W.system.workers thread = some w ∧
      W.system.handles w.number = some h ∧ h.nonblocking = true ∧
      W.system.shared.holder = some thread ∧
      ¬ request.condition.Holds h.sizing (W.system.shared.region.read .queued)
  | .timedOut => request.transfers = true ∧
      ∃ deadline ∈ request.deadline, Sometime thread W₁ W (deadline ≤ ·.now)
  | .cancelled => Sometime thread W₁ W (·.cancelled thread = true)
  | .interrupted => request.transfers = true ∧ W₁.count thread < W.count thread
  | _ => True

theorem mem_news {answer : Answer} {actor : Nat}
    (hmem : .answered thread identity request answer buffer ∈
      System.news actor h next) :
    actor = thread ∧ h.identity = identity ∧ next.call.request = request ∧
      next.call.point = .answered answer ∧ next.call.buffer = buffer := by
  unfold System.news at hmem
  obtain hdelivered | hanswered := List.mem_append.mp hmem
  · cases hdelivery : next.delivery <;> rw [hdelivery] at hdelivered <;> simp at hdelivered
  · split at hanswered
    · rename_i hpoint
      cases List.mem_singleton.mp hanswered
      exact ⟨rfl, rfl, rfl, hpoint, rfl⟩
    · cases hanswered

/-- An answer is shown by the step in which a call is over, or by a failed wait. -/
theorem Step.answers {answer : Answer} (hm : Made s q) (hr : Reachable q W)
    (hstep : Step W shown W')
    (hanswered : .answered thread identity request answer buffer ∈ shown) :
    (∃ e, answer = .error (.system e)) ∨ ∃ w h herald pick next, W.system.workers thread = some w ∧
      W.system.handles w.number = some h ∧ w.call.request = request ∧
      w.call.step thread h (W.around thread herald) pick W.system.shared = some next ∧
      next.call.point = .answered answer := by
  cases hstep with
  | @act actor pick herald w h next hworker hhandle hact =>
    obtain ⟨rfl, rfl, hrequest, hpoint, -⟩ := mem_news hanswered
    rw [Call.step_request hact] at hrequest
    exact Or.inr ⟨w, h, herald, pick, next, hworker, hhandle, hrequest, hact, hpoint⟩
  | @falter actor w h e next hworker hhandle hfalter =>
    obtain ⟨rfl, rfl, hrequest, hpoint, -⟩ := mem_news hanswered
    obtain ⟨a, hi⟩ := hr.inv hm
    rw [(Call.falter_falters hi.refines hfalter).call_eq] at hpoint
    cases hpoint
    exact Or.inl ⟨e, rfl⟩
  | _ => cases hanswered

/-- Whatever a turn refuses, the messages give a reason for. -/
theorem refuses_of_act {herald : Herald} {pick : Nat} {next : Advance} {turn : Access Turn}
    (hi : System.Inv s W.system a) (hworker : W.system.workers thread = some w)
    (hhandle : W.system.handles w.number = some h)
    (hprogram : w.call.program h herald = some turn)
    (hact : w.call.step thread h (W.around thread herald) pick W.system.shared = some next)
    (hpoint : next.call.point = .answered (.error error)) : Ideal.Refuses h w.call a error := by
  obtain ⟨t, b, ht⟩ := Call.turn_of_program hprogram a
  obtain ⟨hcall, -⟩ := hi.step_turn hworker hhandle ht hact
  rw [hcall] at hpoint
  obtain ⟨wake, hverdict⟩ := Turn.finish_of_point hpoint
  exact Ideal.refuses_of_turn ht hverdict

theorem Began.justified (hm : Made s q) (hr : Reachable q W₁) (hb : Began thread W₁ W)
    (hstep : Step W shown W')
    (hrefused : .answered thread identity request (.error error) buffer ∈ shown) :
    Justified thread W₁ W request error := by
  have hreach : Reachable q W := hr.trans hb.during.leads
  obtain ⟨e, he⟩ | ⟨w, h, herald, pick, next, hworker, hhandle, rfl, hact, hpoint⟩ :=
    hstep.answers hm hreach hrefused
  · cases he
    trivial
  have hc := hb.recalls hm hr w hworker
  obtain hturn | hfound := (Call.step_learns hact).refused error hpoint
  · obtain ⟨turn, hprogram⟩ := Option.ne_none_iff_exists'.mp hturn
    obtain ⟨a, hi⟩ := hreach.inv hm
    cases refuses_of_act hi hworker hhandle hprogram hact hpoint with
    | full htransfers hmode hnot =>
      have hholder := hreach.exclusive thread w hworker (Call.inside_of_program hprogram)
      refine ⟨htransfers, w, h, hworker, hhandle, hmode, hholder, ?_⟩
      rw [hi.refines.read_queued]
      exact hnot
    | busy => trivial
    | @setback setback hquitting hrequest =>
      have htransfers := hrequest (hc.mayWait (by rw [hquitting]; rfl))
      have hmet := hc.setback setback hquitting
      cases setback with
      | timedOut => exact ⟨htransfers, hmet⟩
      | cancelled => exact hmet
      | interrupted => exact ⟨htransfers, hmet⟩
  · cases error with
    | wouldBlock => exact hfound.elim
    | timedOut => exact hfound.elim
    | cancelled => exact ⟨W, hb.during, .refl, hfound⟩
    | interrupted =>
      obtain ⟨htransfers, seen, hseen, hne⟩ := hfound
      exact ⟨htransfers, hc.count_lt hseen hne⟩
    | _ => trivial

/-- A step that a thread has no part in. -/
def Apart (thread : Nat) (W : World) (shown : List Happening) (W' : World) : Prop :=
  Step W shown W' ∧ W'.system.workers thread = W.system.workers thread

/-- A thread that has taken a step of its call is not where it was. -/
theorem worker_ne_of_act (hstep : w.call.step thread h around pick q = some next) :
    System.onward w next ≠ some w := by
  intro honward
  have hmoved := Call.point_ne_of_step hstep
  unfold System.onward at honward
  split at honward
  · rename_i answer hanswer
    split at honward
    · rename_i hpurpose
      -- A close that has failed goes on as a drop.
      rw [← Option.some.inj honward] at hpurpose
      cases hpurpose
    · cases honward
  · exact hmoved (congrArg (·.call.point) (Option.some.inj honward))

theorem tell_tell (W : World) (thread other : Nat) (flag flag' : Bool) :
    (W.tell other flag').tell thread flag =
      if other = thread then W.tell thread flag else (W.tell thread flag).tell other flag' := by
  unfold tell
  split
  · rename_i heq
    subst heq
    rw [Function.update_idem]
  · rename_i hne
    dsimp only
    rw [Function.update_comm hne]

theorem around_tell (W : World) {other : Nat} (hne : other ≠ thread) (herald : Herald) :
    (W.tell thread flag).around other herald = W.around other herald := by
  unfold around tell
  dsimp only
  rw [Function.update_of_ne hne]
  rfl

theorem Apart.tell (hstep : Apart thread W shown W') :
    Apart thread (W.tell thread flag) shown (W'.tell thread flag) := by
  obtain ⟨hstep, hsame⟩ := hstep
  refine ⟨?_, hsame⟩
  cases hstep with
  | tick now => exact .tick now
  | interrupt process => exact .interrupt process
  | tell other cancelled =>
    rw [tell_tell]
    split
    · have hagain := Step.tell (W := W.tell thread flag) thread flag
      rw [tell_tell, if_pos rfl] at hagain
      exact hagain
    · exact .tell other cancelled
  | @act actor pick herald w h next hworker hhandle hact =>
    have hne : actor ≠ thread := by
      intro heq
      subst heq
      rw [System.workers_advance, hworker] at hsame
      exact worker_ne_of_act hact hsame
    exact .act hworker hhandle (by rw [around_tell W hne]; exact hact)
  | falter hworker hhandle hfalter => exact .falter hworker hhandle hfalter
  | expire hworker hexpire => exact .expire hworker hexpire
  | other hother hbusy => exact .other hother hbusy

/-- A transfer that gives up can take its last step, with which it moves no message. -/
theorem exists_quits {number : Nat} {setback : Setback} (hm : Made s q) (hr : Reachable q W)
    (hworker : W.system.workers thread =
      some ⟨number, .request, ⟨request, buffer, .quitting setback⟩⟩)
    (hhandle : W.system.handles number = some h) (htransfers : request.transfers = true) :
    ∃ W', Step W [.answered thread h.identity request (.error setback.error) buffer] W' ∧
      W'.system.shared.region.read .queued = W.system.shared.region.read .queued := by
  obtain ⟨a, hi⟩ := hr.inv hm
  obtain ⟨b, hturn⟩ := a.turn_quitting h .smooth buffer setback htransfers
  obtain ⟨next, hstep⟩ : ∃ next, Call.step thread h (W.around thread .smooth) 0
      W.system.shared ⟨request, buffer, .quitting setback⟩ = some next :=
    Call.exists_step_of_turn hturn
  obtain ⟨hcall, hrefines, -, hdelivery, -⟩ := hi.step_turn hworker hhandle hturn hstep
  have hnews : System.news thread h next =
      [.answered thread h.identity request (.error setback.error) buffer] := by
    unfold System.news
    rw [hdelivery, hcall]
    rfl
  refine ⟨_, hnews ▸ Step.act hworker hhandle hstep, ?_⟩
  rw [hi.refines.read_queued, ← Ideal.messages_of_quitting hturn rfl]
  exact hrefines.read_queued

end World

end MappedQueue
