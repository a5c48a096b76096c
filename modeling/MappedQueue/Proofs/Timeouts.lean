import MappedQueue.Proofs.Interruptions
import MappedQueue.Proofs.Wakeups

/-!
# Timeouts

A transfer that has to wait looks at the clock at two places. Before it falls asleep it has just
found that it cannot proceed and has kept the lock since. At the end of a slice of its sleep it
has given the lock away in the meantime, and if its deadline has passed then, it leaves without
another look at the queue. So it can leave beside a message, or beside room for one: its slice
was over before the message came, or the wake-up for the message has reached another sleeper.
-/

namespace MappedQueue

variable {s : Sizing} {q q' : Shared} {S S' : System} {a b : Ideal} {W W' V V' : World}
  {shown : List Happening} {thread me pick identity seen : Nat} {w w' : Worker} {h : Handle}
  {c c' : Call} {around : Surroundings} {herald : Herald} {next : Advance}
  {request : Request} {buffer : ByteArray} {condition : Condition}

namespace Point

/-- Where a call stands that looks at the clock before it falls asleep. -/
def AboutToSleep : Point → Prop
  | .waitClock _ => True
  | _ => False

/-- Where a call stands whose slice of sleep is over and that nobody has woken, until it looks
at the queue or gives up. -/
def Overdue : Point → Prop
  | .roused _ woken => woken = false
  | .backCancelled _ | .backInterrupted _ | .backClock => True
  | _ => False

theorem AboutToSleep.drowsy {point : Point} (hp : point.AboutToSleep) : point.Drowsy := by
  cases point <;> first | exact hp | trivial

theorem IsAsleep.not_drowsy {point : Point} (hp : point.IsAsleep) : ¬ point.Drowsy := by
  cases point <;> first | exact hp.elim | exact id

end Point

namespace Call

/-- What the clock has to do with a step of a call. -/
structure Lapses (q : Shared) (c : Call) (next : Advance) : Prop where
  /-- A call makes up its mind to leave where it looks at the clock, and does nothing else then. -/
  leaves : next.call.point = .quitting .timedOut →
    (c.point.AboutToSleep ∨ c.point = .backClock) ∧ next.shared = q
  /-- No step of a call makes its slice end. -/
  overdue : next.call.point.Overdue → c.point.Overdue

theorem step_lapses (hstep : c.step me h around pick q = some next) : Lapses q c next := by
  cases pace_of_step hstep with
  | goes hpoint hway =>
    cases hway with
    | waitLate => exact ⟨fun _ => ⟨Or.inl (hpoint ▸ trivial), rfl⟩, False.elim⟩
    | backLate => exact ⟨fun _ => ⟨Or.inr hpoint, rfl⟩, False.elim⟩
    | woken => exact ⟨nofun, nofun⟩
    | backOn | backCalm => exact ⟨nofun, fun _ => hpoint ▸ trivial⟩
    | _ => exact ⟨nofun, False.elim⟩
  | enters | sleeps => exact ⟨nofun, False.elim⟩
  | @returns seen woken hpoint =>
    cases woken <;> cases q.orphaned
    · exact ⟨nofun, fun _ => hpoint ▸ rfl⟩
    all_goals exact ⟨nofun, False.elim⟩
  | turns =>
    constructor
    all_goals
      intro hafter
      obtain ⟨fault, hturn⟩ | hturn | ⟨answer, hturn⟩ := takeTurn_point (c := c) (h := h) _ <;>
        rw [hturn] at hafter <;> cases hafter

/-- Only a call that is asleep and has not been woken can come to the end of its sleep. -/
theorem asleep_of_expire (he : c.expire me q = some (q', c')) (hoverdue : c'.point.Overdue) :
    c.point.IsAsleep ∧ (me, c.request.condition) ∈ q.sleepers := by
  cases expiry_of_expire he with
  | atDoor => exact hoverdue.elim
  | asleep hpoint hmem => exact ⟨by rw [hpoint]; trivial, hmem⟩

end Call

namespace System

/-- Nobody changes a byte while a thread that is inside does nothing. -/
theorem Step.region_of_inside (hstep : Step S shown S') (hx : S.Exclusive)
    (hworker : S.workers thread = some w) (hinside : w.call.point.Inside)
    (hsame : S'.workers thread = some w) : S'.shared.region = S.shared.region := by
  have hholder := hx thread w hworker hinside
  cases hstep with
  | attach | call | leave | stir => rfl
  | expire hexpiring hexpire =>
    obtain ⟨point, -, -, -, -, hregion, -⟩ := Call.expire_move hexpire
    exact hregion
  | @act actor pick w₁ h around next hactor hhandle hact =>
    by_contra hne
    have hmine := hx.holder_of_ne hactor hact hne
    obtain rfl : thread = actor := Option.some.inj (hholder.symm.trans hmine)
    cases hworker.symm.trans hactor
    rw [workers_advance] at hsame
    exact World.worker_ne_of_act hact hsame
  | @falter actor w₁ h error next hactor hhandle hfalter =>
    by_cases hne : thread = actor
    · subst hne
      cases hworker.symm.trans hactor
      rw [workers_advance] at hsame
      obtain ⟨-, hopen⟩ | ⟨hnew, -⟩ := World.call_of_onward hsame
      · exact absurd (congrArg Call.point (Call.falter_move hfalter).1) (hopen _)
      · rw [hnew] at hinside
        exact hinside.elim
    · -- A wait fails inside or takes the lock for it, and somebody else has that.
      cases Call.failure_of_falter hfalter with
      | barred => rfl
      | early hclock =>
        have hmine := hx actor w₁ hactor (by rw [hclock]; trivial)
        exact absurd (Option.some.inj (hholder.symm.trans hmine)) hne
      | late _ hfree => cases hholder.symm.trans hfree

/-- A sleeper whose thread has done nothing was a sleeper before. -/
theorem Step.mem_sleepers (hstep : Step S shown S') (hs : S.Sleeping)
    (hworker : S.workers thread = some w) (hasleep : w.call.point.IsAsleep)
    (hmem : (thread, condition) ∈ S'.shared.sleepers) :
    (thread, condition) ∈ S.shared.sleepers := by
  cases hstep.stirs hs with
  | fewer hsublist => exact hsublist.subset hmem
  | @more sleeper w₀ w' hsleepers hnew hbefore hdrowsy =>
    rw [hsleepers] at hmem
    obtain hold | hnewest := List.mem_append.mp hmem
    · exact hold
    · cases List.mem_singleton.mp hnewest
      cases hworker.symm.trans hbefore
      exact absurd hdrowsy hasleep.not_drowsy

end System

namespace World

/-- What holds of the sleepers in every world that can come about. -/
theorem Reachable.sleepers (hm : Made s q) (hr : Reachable q W) :
    W.system.Sleeping ∧ System.Drowsing s W.system := by
  obtain ⟨history, hrun⟩ := hr.run
  exact hrun.sleepers hm

/-- A thread is in a call for `request` and stands at a point of some kind. -/
def Stands (thread : Nat) (request : Request) (kind : Point → Prop) (W : World) : Prop :=
  ∃ w, W.system.workers thread = some w ∧ w.call.request = request ∧ kind w.call.point

/-- A thread sleeps, and nobody has woken it. -/
def Sleeps (thread : Nat) (request : Request) (W : World) : Prop :=
  Stands thread request Point.IsAsleep W ∧
    (thread, request.condition) ∈ W.system.shared.sleepers

/-- A thread has made up its mind to leave because its deadline has passed. -/
def Leaves (thread : Nat) (request : Request) : World → Prop :=
  Stands thread request (· = .quitting .timedOut)

/-- What a request waits for is there. -/
def Fulfilled (s : Sizing) (request : Request) (W : World) : Prop :=
  System.Holding s request.condition W.system

/-- From one world to another while something goes on to hold. -/
abbrev Lasting (P : World → Prop) : World → World → Prop :=
  Relation.ReflTransGen fun V V' => Leads V V' ∧ P V'

/-- What a request waits for comes about in a step, and another sleeper is woken for it. -/
structure PassesOver (s : Sizing) (thread : Nat) (request : Request) (V V' : World) : Prop where
  leads : Leads V V'
  before : ¬ Fulfilled s request V
  after : Fulfilled s request V'
  wakes : System.WakesOther request.condition thread V.system V'.system

/-- A transfer has fallen asleep when it could not proceed, and sleeps. If what it waits for has
come about meanwhile, another sleeper was woken for it. -/
structure HasSlept (s : Sizing) (thread : Nat) (request : Request) (W : World) : Prop where
  fell : ∃ U U', Leads U U' ∧ Stands thread request Point.AboutToSleep U ∧
    ¬ Fulfilled s request U ∧ Sleeps thread request U' ∧ Lasting (Sleeps thread request) U' W
  passed : Fulfilled s request W → ∃ V V', PassesOver s thread request V V' ∧
    Sleeps thread request V ∧ Sleeps thread request V' ∧ Lasting (Sleeps thread request) V' W

/-- The slice of a sleeping transfer was over before anybody had woken it, and it has not looked
at the queue since. -/
def HasOverslept (s : Sizing) (thread : Nat) (request : Request) (W : World) : Prop :=
  ∃ U U', HasSlept s thread request U ∧ Sleeps thread request U ∧ Leads U U' ∧
    Stands thread request Point.Overdue U' ∧
    Lasting (Stands thread request Point.Overdue) U' W

/-- In a step a transfer finds that its deadline has passed, and makes up its mind to leave. It
has the lock, and cannot proceed unless it has overslept. -/
structure Decides (s : Sizing) (thread : Nat) (request : Request) (W W' : World) : Prop where
  leads : Leads W W'
  holder_eq : W.system.shared.holder = some thread
  leaves : Leaves thread request W'
  cause : (Stands thread request Point.AboutToSleep W ∧ ¬ Fulfilled s request W) ∨
    (Stands thread request (· = .backClock) W ∧ HasOverslept s thread request W)

/-- A transfer is about to leave that has made up its mind to, and the queue is as it was then. -/
def HasDecided (q : Shared) (s : Sizing) (thread : Nat) (request : Request) (W : World) : Prop :=
  ∃ V V', Reachable q V ∧ Decides s thread request V V' ∧ Lasting (Leaves thread request) V' W ∧
    W.system.shared.region = V.system.shared.region

/-- What lies behind a transfer, wherever it stands. -/
structure Accounts (q : Shared) (s : Sizing) (thread : Nat) (W : World) (w : Worker) : Prop where
  slept : Sleeps thread w.call.request W → HasSlept s thread w.call.request W
  overslept : w.call.point.Overdue → HasOverslept s thread w.call.request W
  decided : w.call.point = .quitting .timedOut → HasDecided q s thread w.call.request W

section Accounts

variable (hworker : W.system.workers thread = some w) (hc : Accounts q s thread W w)
include hworker hc

/-- At the end of a slice a transfer that nobody has woken has overslept. -/
theorem Accounts.of_expire (hleads : Leads W W')
    (hexpire : w.call.expire thread W.system.shared = some (q', c'))
    (hafter : W'.system.workers thread = some { w with call := c' }) :
    Accounts q s thread W' { w with call := c' } := by
  obtain ⟨hrequest, -, -, hquit⟩ := Call.expire_keeps hexpire
  refine ⟨fun hsleeps => ?_, fun hoverdue => ?_, fun hleaves => absurd hleaves (hquit _)⟩
  · obtain ⟨point, rfl, -, -, hawake, -⟩ := Call.expire_move hexpire
    obtain ⟨⟨w₁, hw₁, -, hasleep⟩, -⟩ := hsleeps
    cases hafter.symm.trans hw₁
    exact absurd hasleep hawake
  · obtain ⟨hasleep, hmem⟩ := Call.asleep_of_expire hexpire hoverdue
    have hsleeps : Sleeps thread w.call.request W := ⟨⟨w, hworker, rfl, hasleep⟩, hmem⟩
    show HasOverslept s thread c'.request W'
    rw [hrequest]
    exact ⟨W, W', hc.slept hsleeps, hsleeps, hleads, ⟨_, hafter, hrequest, hoverdue⟩, .refl⟩

variable (hm : Made s q) (hr : Reachable q W)
include hm hr

/-- A thread that does nothing has the same behind it, and sleeps on, or is a step later, or a
step closer to leaving. -/
theorem Accounts.of_same (hstep : Step W shown W') (hsame : W'.system.workers thread = some w) :
    Accounts q s thread W' w := by
  have hleads : Leads W W' := ⟨shown, hstep⟩
  obtain ⟨a, hi⟩ := hr.inv hm
  obtain ⟨hsleeping, -⟩ := hr.sleepers hm
  have hstands : ∀ kind : Point → Prop, kind w.call.point →
      Stands thread w.call.request kind W' := fun kind hkind => ⟨w, hsame, rfl, hkind⟩
  refine ⟨fun hsleeps => ?_, fun hoverdue => ?_, fun hleaves => ?_⟩
  · obtain ⟨⟨w', hw', -, hasleep⟩, hmem⟩ := hsleeps
    cases hsame.symm.trans hw'
    have hsleeps' := And.intro (hstands _ hasleep) hmem
    have hbefore : Sleeps thread w.call.request W := by
      refine ⟨⟨w, hworker, rfl, hasleep⟩, ?_⟩
      obtain hsystem | hwithin := hstep.within
      · rw [← hsystem]
        exact hmem
      · exact hwithin.mem_sleepers hsleeping hworker hasleep hmem
    have hslept := hc.slept hbefore
    obtain ⟨U, U', hfalls, hdrowsy, hnot, hasleep', hlasting⟩ := hslept.fell
    refine ⟨⟨U, U', hfalls, hdrowsy, hnot, hasleep', hlasting.tail ⟨hleads, hsleeps'⟩⟩, ?_⟩
    intro hfulfilled
    by_cases hearlier : Fulfilled s w.call.request W
    · obtain ⟨V, V', hpasses, hV, hV', hlasting⟩ := hslept.passed hearlier
      exact ⟨V, V', hpasses, hV, hV', hlasting.tail ⟨hleads, hsleeps'⟩⟩
    · obtain hsystem | hwithin := hstep.within
      · rw [Fulfilled, hsystem] at hfulfilled
        exact absurd hfulfilled hearlier
      · have hwakes := hwithin.wakesOther hi hsleeping hearlier hfulfilled hbefore.2 hmem
        exact ⟨W, W', ⟨hleads, hearlier, hfulfilled, hwakes⟩, hbefore, hsleeps', .refl⟩
  · obtain ⟨U, U', hslept, hsleeps, hends, hover, hlasting⟩ := hc.overslept hoverdue
    exact ⟨U, U', hslept, hsleeps, hends, hover, hlasting.tail ⟨hleads, hstands _ hoverdue⟩⟩
  · obtain ⟨V, V', hrV, hdecides, hlasting, hregion⟩ := hc.decided hleaves
    refine ⟨V, V', hrV, hdecides, hlasting.tail ⟨hleads, hstands _ hleaves⟩, ?_⟩
    obtain hsystem | hwithin := hstep.within
    · rw [hsystem, hregion]
    · exact (hwithin.region_of_inside hr.exclusive hworker (by rw [hleaves]; trivial) hsame).trans
        hregion

/-- A transfer falls asleep when it cannot proceed, and makes up its mind to leave when it cannot
proceed or has overslept. -/
theorem Accounts.of_act (htransfers : w.call.request.transfers = true) (hleads : Leads W W')
    (hact : w.call.step thread h (W.around thread herald) pick W.system.shared = some next)
    (hafter : W'.system.workers thread = some w') (hcall : w'.call = next.call)
    (hshared : W'.system.shared = next.shared) : Accounts q s thread W' w' := by
  obtain ⟨-, hdrowsing⟩ := hr.sleepers hm
  have hlapses := Call.step_lapses hact
  have hrequest : w'.call.request = w.call.request := by
    rw [hcall, Call.step_request hact]
  have hblocked : w.call.point.Drowsy → ¬ Fulfilled s w.call.request W :=
    hdrowsing thread w hworker htransfers
  refine ⟨fun hsleeps => ?_, fun hoverdue => ?_, fun hleaves => ?_⟩
  · have hasleep : next.call.point.IsAsleep := by
      obtain ⟨⟨w₁, hw₁, -, hasleep⟩, -⟩ := hsleeps
      cases hafter.symm.trans hw₁
      exact hcall ▸ hasleep
    rw [hrequest] at hsleeps ⊢
    obtain ⟨seen, hclock, hregion⟩ := Call.clock_of_asleep hact hasleep
    have hnot := hblocked (by rw [hclock]; trivial)
    have hpoint : w.call.point.AboutToSleep := by rw [hclock]; trivial
    refine ⟨⟨W, W', hleads, ⟨w, hworker, rfl, hpoint⟩, hnot, hsleeps, .refl⟩, ?_⟩
    intro hfulfilled
    rw [Fulfilled, System.Holding, hshared, hregion] at hfulfilled
    exact absurd hfulfilled hnot
  · have hbefore := hlapses.overdue (hcall ▸ hoverdue)
    obtain ⟨U, U', hslept, hsleeps, hends, hover, hlasting⟩ := hc.overslept hbefore
    rw [hrequest]
    exact ⟨U, U', hslept, hsleeps, hends, hover,
      hlasting.tail ⟨hleads, w', hafter, hrequest, hoverdue⟩⟩
  · obtain ⟨hpoint, hsame⟩ := hlapses.leaves (hcall ▸ hleaves)
    have hinside : w.call.point.Inside := by
      obtain hsleepy | hback := hpoint
      · exact hsleepy.drowsy.inside
      · rw [hback]
        trivial
    rw [hrequest]
    refine ⟨W, W', hr, ⟨hleads, hr.exclusive thread w hworker hinside,
      ⟨w', hafter, hrequest, hleaves⟩, ?_⟩, .refl, by rw [hshared, hsame]⟩
    obtain hsleepy | hback := hpoint
    · exact Or.inl ⟨⟨w, hworker, rfl, hsleepy⟩, hblocked hsleepy.drowsy⟩
    · exact Or.inr ⟨⟨w, hworker, rfl, hback⟩, hc.overslept (by rw [hback]; trivial)⟩

end Accounts

/-- A call that stands at its beginning has nothing behind it. -/
theorem accounts_arriving (hworker : W.system.workers thread = some w)
    (hpoint : w.call.point = .arriving) : Accounts q s thread W w := by
  refine ⟨fun hsleeps => ?_, fun hoverdue => ?_, fun hleaves => ?_⟩
  · obtain ⟨⟨w₁, hw₁, -, hasleep⟩, -⟩ := hsleeps
    cases hworker.symm.trans hw₁
    rw [hpoint] at hasleep
    exact hasleep.elim
  · rw [hpoint] at hoverdue
    exact hoverdue.elim
  · cases hpoint.symm.trans hleaves

/-- What lies behind the transfers of a world that can come about. -/
theorem Reachable.accounts (hm : Made s q) (hr : Reachable q W) :
    ∀ w, W.system.workers thread = some w → w.call.request.transfers = true →
      Accounts q s thread W w := by
  obtain ⟨W₀, hstart, hrun⟩ := hr
  induction hrun with
  | refl =>
    intro w hw
    rw [hstart] at hw
    cases hw
  | @tail W W' hrun hleads ih =>
    have hr : Reachable q W := ⟨W₀, hstart, hrun⟩
    intro w' hw' htransfers
    obtain ⟨shown, hstep⟩ := hleads
    cases hbefore : W.system.workers thread with
    | none => exact accounts_arriving hw' (hstep.arriving hbefore hw')
    | some w =>
      cases hstep.fate hbefore with
      | same hsame =>
        cases hsame.symm.trans hw'
        exact (ih _ hbefore htransfers).of_same hbefore hm hr hstep hw'
      | acts hhandle hact hshown hworld =>
        have hgoes := hw'
        rw [hworld, System.workers_advance] at hgoes
        obtain ⟨hcall, -⟩ | ⟨hnew, -⟩ := call_of_onward hgoes
        · have hbefore' : w.call.request.transfers = true := by
            rw [← Call.step_request hact, ← hcall]
            exact htransfers
          exact (ih w hbefore hbefore').of_act hbefore hm hr hbefore' ⟨shown, hstep⟩ hact hw'
            hcall (by rw [hworld]; rfl)
        · exact accounts_arriving hw' hnew
      | falters hhandle hfalter hshown hworld =>
        obtain ⟨a, hi⟩ := hr.inv hm
        have hgoes := hw'
        rw [hworld, System.workers_advance] at hgoes
        obtain ⟨-, hopen⟩ | ⟨hnew, -⟩ := call_of_onward hgoes
        · exact absurd (congrArg Call.point (Call.falter_falters hi.refines hfalter).call_eq)
            (hopen _)
        · exact accounts_arriving hw' hnew
      | expires hexpire hafter =>
        cases hafter.symm.trans hw'
        have hrequest := (Call.expire_keeps hexpire).1
        have hbefore' : w.call.request.transfers = true := hrequest ▸ htransfers
        exact (ih w hbefore hbefore').of_expire hbefore ⟨shown, hstep⟩ hexpire hafter

/-- A call that answers that its deadline has passed is a transfer that had made up its mind to
leave. -/
theorem Step.leaves (hm : Made s q) (hr : Reachable q W) (hstep : Step W shown W')
    (hanswered : .answered thread identity request (.error .timedOut) buffer ∈ shown) :
    request.transfers = true ∧ ∃ w, W.system.workers thread = some w ∧
      w.call.request = request ∧ w.call.point = .quitting .timedOut := by
  obtain ⟨w, h, herald, pick, next, hworker, hhandle, rfl, hact, hpoint⟩ :=
    (hstep.answers hm hr hanswered).resolve_left (by rintro ⟨e, he⟩; cases he)
  obtain ⟨W₁, hr₁, hb⟩ := hr.exists_began (hworker ▸ Option.some_ne_none w)
  obtain ⟨htransfers, -⟩ := hb.justified hm hr₁ hstep hanswered
  refine ⟨htransfers, w, hworker, rfl, ?_⟩
  -- Only a turn answers so, and only the one in which a call gives up.
  have hturn := ((Call.step_learns hact).refused _ hpoint).resolve_right id
  obtain ⟨turn, hprogram⟩ := Option.ne_none_iff_exists'.mp hturn
  obtain ⟨a, hi⟩ := hr.inv hm
  have hrefuses := refuses_of_act hi hworker hhandle hprogram hact hpoint
  generalize herror : Error.timedOut = error at hrefuses
  cases hrefuses with
  | full => cases herror
  | busy => cases herror
  | @setback setback hquitting =>
    cases setback <;> cases herror
    exact hquitting

/-- A receive with a deadline. -/
def hurried : Request := .receive (some 1)

/-- A receive with a deadline whose slice is over, at the point that `point` says. -/
def hurriedReceive (point : Point) : Worker := ⟨0, .request, ⟨hurried, ⟨#[0, 0, 0, 0]⟩, point⟩⟩

/-- A message on a queue on which a receive is counted as waiting and somebody is registered. -/
def besideMessage : Ideal :=
  { messages := [⟨⟨#[7]⟩, 0⟩], waiting := 1, registered := some ⟨1, Event.nothing⟩ }

/-- A receive falls asleep on an empty queue for which somebody is registered, and its slice ends.
A message is sent, and nothing is delivered because the receive is counted as waiting. -/
theorem exists_overdue : ∃ q history S, Made ⟨2, 4⟩ q ∧
    Path Step { system := System.idle q } history { system := S } ∧
    (∀ thread d report, .delivered thread d report ∉ history) ∧
    System.Rest ⟨2, 4⟩ S besideMessage 0 ⟨⟨2, 4⟩, 1, false⟩
      (Function.update (fun _ => none) 1 (some (hurriedReceive (.roused 0 false)))) [] := by
  obtain ⟨q, hm⟩ := exists_made (s := ⟨2, 4⟩) (by decide)
  let m : Message := ⟨⟨#[7]⟩, 0⟩
  let W₀ : World := { system := System.idle q }
  let around := W₀.around 0 .smooth
  obtain ⟨S₀, hattach, hrest₀⟩ := System.exists_rest hm 0 around 0 1 false (by decide)
  obtain ⟨S₁, hnotify, hrest₁⟩ := hrest₀.call (b := { registered := some ⟨1, Event.nothing⟩ }) 0
    around (.notify (some Event.nothing)) .empty rfl rfl (by decide) rfl rfl rfl
  obtain ⟨S₂, hsleep, hrest₂⟩ := hrest₁.sleep
    (b := { waiting := 1, registered := some ⟨1, Event.nothing⟩ }) 1 around hurried
    ⟨#[0, 0, 0, 0]⟩ rfl rfl trivial rfl rfl rfl
  obtain ⟨q₃, hexpire, hrest₃⟩ := hrest₂.expires 1 (Function.update_self ..)
    (List.mem_singleton_self _)
  have hslice : Step { W₀ with system := S₂ } [] { W₀ with system := _ } :=
    .expire (hrest₂.workers_eq ▸ Function.update_self ..) hexpire
  obtain ⟨S₄, hsend, hrest₄⟩ := hrest₃.call (b := besideMessage) 0 around
    (.send m.bytes 0 none) .empty rfl rfl trivial rfl rfl rfl
  have hbefore := (Path.of_prompted (W := W₀) (hattach.trans hnotify) rfl rfl).trans
    (Path.of_prompted (W := { W₀ with system := S₁ }) hsleep rfl rfl)
  have hsent := (hbefore.step hslice).trans
    (Path.of_prompted (W := { W₀ with system := _ }) hsend rfl rfl)
  refine ⟨q, _, S₄, hm, hsent, ?_, ?_⟩
  · intro thread d report hmem
    change Happening.delivered thread d report ∈ [
      .answered 0 1 (.notify (some Event.nothing)) (.ok .notified) .empty,
      .answered 0 1 (.send m.bytes 0 none) (.ok .sent) .empty] at hmem
    simp only [List.mem_cons, reduceCtorEq, List.not_mem_nil, or_self] at hmem
  · rw [Function.update_idem] at hrest₄
    exact hrest₄

/-- The deadline of the receive passes, and it leaves beside the message. -/
theorem exists_overslept : ∃ q history W W' V, Made ⟨2, 4⟩ q ∧
    Path Step { system := System.idle q } history W ∧
    (∀ thread d report, .delivered thread d report ∉ history) ∧
    W.system.shared.region.registered = some ⟨1, Event.nothing⟩ ∧
    Leads W W' ∧ ¬ Leaves 1 hurried W ∧ Leaves 1 hurried W' ∧
    W'.system.shared = W.system.shared ∧ Fulfilled ⟨2, 4⟩ hurried W ∧
    Step W' [.answered 1 1 hurried (.error .timedOut) ⟨#[0, 0, 0, 0]⟩] V ∧
    Fulfilled ⟨2, 4⟩ hurried V := by
  obtain ⟨q, history, S, hm, hsent, hquiet, hrest⟩ := exists_overdue
  let h : Handle := ⟨⟨2, 4⟩, 1, false⟩
  let W₁ : World := { system := S, now := 1 }
  have hlate := hsent.step (show Step _ [] W₁ from .tick 1)
  have hback : Call.Comes 1 h (W₁.around 1 .smooth) 3 S.shared
      (hurriedReceive (.roused 0 false)).call (S.shared.seize 1)
      (hurriedReceive .backClock).call := .backClock hrest.holder_eq hrest.orphaned_eq rfl rfl
  have hpath := hlate.trans (Path.of_prompted (W := W₁) (System.Path.of_comes hback rfl
    hrest.handle_eq (hrest.workers_eq ▸ Function.update_self ..)) rfl rfl)
  let S₂ : System := { S.setWorker 1 (some (hurriedReceive .backClock)) with
    shared := S.shared.seize 1 }
  let W : World := { W₁ with system := S₂ }
  have hr : Reachable q W := ⟨_, rfl, hpath.leads⟩
  have hworker : S₂.workers 1 = some (hurriedReceive .backClock) :=
    Function.update_self 1 _ S.workers
  let next : Advance :=
    { call := (hurriedReceive (.quitting .timedOut)).call, shared := S₂.shared,
      nonblocking := false }
  let W' : World := { W with system := S₂.advance 1 (hurriedReceive .backClock) h next }
  have hdecides : Step W (System.news 1 h next) W' :=
    @Step.act W 1 0 .smooth _ h next hworker hrest.handle_eq rfl
  have hworker' : W'.system.workers 1 = some (hurriedReceive (.quitting .timedOut)) :=
    System.workers_advance ..
  have hhandle' : W'.system.handles 0 = some h := Function.update_self 0 _ S₂.handles
  obtain ⟨V, hleaves, hqueued⟩ := exists_quits hm (hr.trans (.single ⟨_, hdecides⟩)) hworker'
    hhandle' rfl
  have hfulfilled : Fulfilled ⟨2, 4⟩ hurried W := by
    rw [Fulfilled, System.Holding, show W.system.shared.region = S.shared.region from rfl,
      hrest.inv.refines.read_queued]
    decide
  refine ⟨q, _, W, W', V, hm, hpath, ?_, hrest.inv.refines.registered_eq, ⟨_, hdecides⟩, ?_,
    ⟨_, hworker', rfl, rfl⟩, rfl, hfulfilled, hleaves, ?_⟩
  · intro thread d report hmem
    rw [List.append_nil, List.append_nil] at hmem
    exact hquiet thread d report hmem
  · rintro ⟨w, hw, -, hleaves⟩
    cases hworker.symm.trans hw
    cases hleaves
  · rw [Fulfilled, System.Holding, hqueued]
    exact hfulfilled

/-- Not every transfer that times out cannot proceed when it makes up its mind to leave. -/
theorem times_out_beside_message : ¬ ∀ (q : Shared) (W W' V : World) (request : Request)
    (identity : Nat) (buffer : ByteArray) (shown : List Happening),
    Made ⟨2, 4⟩ q → Reachable q W → Leads W W' → ¬ Leaves 1 request W → Leaves 1 request W' →
      Step W' shown V → .answered 1 identity request (.error .timedOut) buffer ∈ shown →
        ¬ Fulfilled ⟨2, 4⟩ request W := by
  intro hnever
  obtain ⟨q, history, W, W', V, hm, hpath, -, -, hleads, hnot, hdecided, -, hfulfilled, hstep,
    -⟩ := exists_overslept
  exact hnever q W W' V hurried 1 _ _ hm ⟨_, rfl, hpath.leads⟩ hleads hnot hdecided hstep
    (List.mem_singleton_self _) hfulfilled

/-- A transfer that times out made up its mind to when it had the lock and could not proceed, or
when it had overslept: its slice was over before it was woken, and whatever it waits for came
after that, or another sleeper was woken for it. Until it is over the queue stays as it was. -/
theorem timed_out_unless_overslept (hm : Made s q) (hr : Reachable q V) (hstep : Step V shown V')
    (hanswered : .answered thread identity request (.error .timedOut) buffer ∈ shown) :
    request.transfers = true ∧ ∃ W W', Reachable q W ∧ Decides s thread request W W' ∧
      Lasting (Leaves thread request) W' V ∧
      V.system.shared.region = W.system.shared.region := by
  obtain ⟨htransfers, w, hworker, rfl, hpoint⟩ := hstep.leaves hm hr hanswered
  exact ⟨htransfers, (hr.accounts hm w hworker htransfers).decided hpoint⟩

theorem overslept_beside_message : ∃ q W V V', Made ⟨2, 4⟩ q ∧ Reachable q W ∧ Reachable q V ∧
    Step V [.answered 1 1 hurried (.error .timedOut) ⟨#[0, 0, 0, 0]⟩] V' ∧
    Fulfilled ⟨2, 4⟩ hurried W ∧ HasOverslept ⟨2, 4⟩ 1 hurried W := by
  obtain ⟨q, history, U, V, V', hm, hpath, -, -, hleads, -, -, hsame, hfulfilled, hstep,
    -⟩ := exists_overslept
  have hr : Reachable q V := ⟨_, rfl, hpath.leads.tail hleads⟩
  obtain ⟨-, W, W', hrW, hdecides, -, hregion⟩ :=
    timed_out_unless_overslept hm hr hstep (List.mem_singleton_self _)
  have hbeside : Fulfilled ⟨2, 4⟩ hurried W := by
    rw [Fulfilled, System.Holding, ← hregion, hsame]
    exact hfulfilled
  obtain ⟨-, hnot⟩ | ⟨-, hoverslept⟩ := hdecides.cause
  · exact absurd hbeside hnot
  · exact ⟨q, W, V, V', hm, hrW, hr, hstep, hbeside, hoverslept⟩

end World

end MappedQueue
