import MappedQueue.Proofs.Progress
import MappedQueue.Proofs.Registrations

/-!
# Notifications are delivered once

Every delivery answers one registration that is in force, and is made by a send that finds the
queue empty and nobody waiting, and that puts its message there. Nobody replaces the
registration of another who is alive or withdraws it, and what the notifier reports of a
delivery makes no difference to anything that follows.
-/

namespace MappedQueue

variable {s : Sizing} {q : Shared} {S S' : System} {a b : Ideal} {history shown : List Happening}
  {d : Delivery} {h : Handle} {c : Call} {t : Turn} {next : Advance} {r r' : Region}
  {herald herald' : Herald} {around : Surroundings} {buffer : ByteArray} {request : Request}

/-- What a turn leaves behind if its delivery goes through another notifier. -/
def Turn.through (herald : Herald) (t : Turn) : Turn :=
  { t with delivery := t.delivery.map (herald.dispatch ·.toDelivery) }

def Advance.through (herald : Herald) (next : Advance) : Advance :=
  { next with delivery := next.delivery.map (herald.dispatch ·.toDelivery) }

theorem Turn.through_of_none (hdelivery : t.delivery = none) : t.through herald = t := by
  obtain ⟨verdict, buffer, nonblocking, delivery⟩ := t
  obtain rfl : delivery = none := hdelivery
  rfl

theorem Advance.through_of_none (hdelivery : next.delivery = none) :
    next.through herald = next := by
  obtain ⟨call, shared, nonblocking, delivery⟩ := next
  obtain rfl : delivery = none := hdelivery
  rfl

namespace Ideal

/-- Only a send delivers something, and only in its first turn. -/
theorem delivery_first
    (hsend : ∀ bytes priority deadline, request ≠ .send bytes priority deadline) :
    (a.first h herald buffer request).1.delivery = none := by
  cases request with
  | send bytes priority deadline => exact absurd rfl (hsend bytes priority deadline)
  | receive deadline =>
    rw [first]
    split
    · split <;> rfl
    · rfl
  | notify event =>
    cases event with
    | none => rfl
    | some event =>
      rw [first]
      split <;> rfl
  | _ => rfl

theorem delivery_of_not_inside (ht : a.turn h herald c = some (t, b)) (hpoint : c.point ≠ .inside) :
    t.delivery = none := by
  obtain ⟨hinside, -⟩ | ⟨-, rfl, -⟩ | ⟨setback, -, rfl, -⟩ := turn_cases ht
  · exact absurd hinside hpoint
  · cases hrequest : c.request with
    | receive deadline =>
      rw [again]
      split <;> rfl
    | _ => rfl
  · cases c.request <;> rfl

end Ideal

/-- Whatever the notifier reports of its delivery, the first turn of a call does the same. -/
theorem Turn.run_first_through (halive : herald'.alive = herald.alive)
    (hrun : (first h herald buffer request).run r = (.ok t, r'))
    (hdelivery : (∀ bytes priority deadline, request ≠ .send bytes priority deadline) →
      t.delivery = none) :
    (first h herald' buffer request).run r = (.ok (t.through herald'), r') := by
  cases request with
  | send bytes priority deadline =>
    have hsend : ∀ {taken : Option Delivery} {r₁ : Region},
        (trySend h bytes priority >>= fun verdict => pure (⟨verdict, buffer, h.nonblocking,
          taken.map herald.dispatch⟩ : Turn)).run r₁ = (.ok t, r') →
        (trySend h bytes priority >>= fun verdict => pure (⟨verdict, buffer, h.nonblocking,
          taken.map herald'.dispatch⟩ : Turn)).run r₁ = (.ok (t.through herald'), r') := by
      intro taken r₁ hrun
      obtain ⟨verdict, r₂, hverdict, hpure⟩ := Access.run_bind_eq_ok.mp hrun
      cases hpure
      rw [Access.run_bind_of_ok hverdict]
      cases taken <;> rfl
    rw [first, Access.run_get_bind] at hrun ⊢
    by_cases hempty : r.read .queued = 0
    · rw [if_pos hempty] at hrun ⊢
      obtain ⟨taken, r₁, htaken, hrest⟩ := Access.run_bind_eq_ok.mp hrun
      rw [Access.run_bind_of_ok htaken]
      exact hsend hrest
    · rw [if_neg hempty] at hrun ⊢
      exact @hsend none r hrun
  | notify event =>
    have hsame :
        first h herald' buffer (.notify event) = first h herald buffer (.notify event) := by
      cases event with
      | none => rfl
      | some event => rw [first, first, halive]
    rw [through_of_none (hdelivery fun _ _ _ hsend => by cases hsend), hsame, hrun]
  | _ =>
    rw [through_of_none (hdelivery fun _ _ _ hsend => by cases hsend)]
    exact hrun

namespace Call

variable {me pick : Nat}

theorem takeTurn_through {turn turn' : Access Turn} (hrun : turn.run q.region = (.ok t, r))
    (hrun' : turn'.run q.region = (.ok (t.through herald), r)) :
    c.takeTurn h pick q turn' = (c.takeTurn h pick q turn).through herald := by
  obtain ⟨verdict, buffer, nonblocking, delivery⟩ := t
  simp only [takeTurn, hrun, hrun', Turn.through]
  cases verdict <;> rfl

/-- The notifier is asked in the first turn only. -/
theorem step_of_not_inside (hpoint : c.point ≠ .inside) :
    c.step me h { around with herald } pick q = c.step me h around pick q := by
  unfold step
  cases hc : c.point <;> first | rfl | exact absurd hc hpoint

/-- Whatever the notifier reports of a delivery, a step of a call does the same. -/
theorem step_through (hs : h.sizing.Valid) (hh : h.Fits) (hfits : c.request.Fits)
    (hc : c.Admitted h) (hr : Refines h.sizing q.region a)
    (halive : herald.alive = around.herald.alive)
    (hstep : c.step me h around pick q = some next) :
    c.step me h { around with herald } pick q = some (next.through herald) := by
  by_cases hpoint : c.point = .inside
  · have hadmitted : refusal? h c.buffer c.request = none := hc (by rw [hpoint]; trivial)
    obtain ⟨r, hrun, -⟩ := hr.run_first hs hh hfits hadmitted around.herald
    have hrun' := Turn.run_first_through halive hrun Ideal.delivery_first
    unfold step at hstep ⊢
    simp only [hpoint] at hstep ⊢
    rw [takeTurn_through hrun hrun', Option.some.inj hstep]
  · rw [step_of_not_inside hpoint, hstep, Advance.through_of_none]
    cases ht : a.turn h around.herald c with
    | none => exact (step_quiet ht hstep).delivery_eq
    | some taken =>
      obtain ⟨-, -, -, hdelivery, -⟩ := step_turn hs hh hfits hc hr ht hstep
      exact hdelivery.trans (Ideal.delivery_of_not_inside ht hpoint)

end Call

theorem Happening.eq_of_smooth_answered {x : Happening} {thread identity : Nat} {request : Request}
    {answer : Answer} {buffer : ByteArray}
    (hx : x.smooth = .answered thread identity request answer buffer) :
    x = .answered thread identity request answer buffer := by
  cases x with
  | delivered => cases hx
  | answered => exact hx

theorem Happening.eq_of_smooth_delivered {x : Happening} {thread : Nat}
    {report : Except SystemError Unit}
    (hx : x.smooth = .delivered thread d report) : ∃ other, x = .delivered thread d other := by
  cases x with
  | delivered thread' d' other =>
    cases hx
    exact ⟨other, rfl⟩
  | answered => cases hx

namespace System

/-- What is shown in the place of what a step shows, and differs from it at most in what the
notifier reported, is what the step shows with another notifier. -/
theorem news_of_smooth {thread : Nat} {other : List Happening} (alive : Nat → Bool)
    (ho : other.map Happening.smooth = (news thread h next).map Happening.smooth) :
    ∃ deliver, other = news thread h (next.through ⟨alive, deliver⟩) := by
  obtain ⟨call, shared, nonblocking, delivery⟩ := next
  unfold news at ho ⊢
  cases delivery with
  | none =>
    refine ⟨fun _ => .ok (), ?_⟩
    cases hpoint : call.point <;> rw [hpoint] at ho <;>
      simp only [Option.map_none, Option.toList_none, List.nil_append, List.map_nil, List.map_cons,
        List.map_eq_nil_iff, List.map_eq_cons_iff] at ho
    case answered answer =>
      obtain ⟨x, rest, rfl, hx, rfl⟩ := ho
      rw [Happening.eq_of_smooth_answered hx]
      simp only [Advance.through, hpoint]
      rfl
    all_goals
      simp only [Advance.through, hpoint]
      exact ho
  | some delivery =>
    cases hpoint : call.point <;> rw [hpoint] at ho <;>
      simp only [Option.map_some, Option.toList_some, List.cons_append, List.nil_append,
        List.map_nil, List.map_cons, List.map_eq_nil_iff, List.map_eq_cons_iff] at ho
    case answered answer =>
      obtain ⟨x, rest, rfl, hx, y, rest', rfl, hy, rfl⟩ := ho
      obtain ⟨report, rfl⟩ := Happening.eq_of_smooth_delivered hx
      rw [Happening.eq_of_smooth_answered hy]
      refine ⟨fun _ => report, ?_⟩
      simp only [Advance.through, hpoint]
      rfl
    all_goals
      obtain ⟨x, rest, rfl, hx, rfl⟩ := ho
      obtain ⟨report, rfl⟩ := Happening.eq_of_smooth_delivered hx
      refine ⟨fun _ => report, ?_⟩
      simp only [Advance.through, hpoint]
      rfl

/-- Of the notifier's reports nothing depends but what is shown of them. -/
theorem Step.of_smooth (hi : Inv s S a) (hstep : Step S shown S') {other : List Happening}
    (ho : other.map Happening.smooth = shown.map Happening.smooth) : Step S other S' := by
  cases hstep with
  | @act thread pick w h around next hworker hhandle hstep =>
    obtain ⟨rfl, hh⟩ := hi.handles _ h hhandle
    have hw := hi.workers _ w hworker
    obtain ⟨deliver, rfl⟩ := news_of_smooth around.herald.alive ho
    have hthrough : w.call.step thread h { around with herald := ⟨around.herald.alive, deliver⟩ }
        pick S.shared = some _ :=
      Call.step_through hi.valid hh hw.fits (hw.admitted h rfl) hi.refines rfl hstep
    exact .act hworker hhandle hthrough
  | falter hworker hhandle hfalter =>
    obtain ⟨deliver, rfl⟩ := news_of_smooth (fun _ => true) ho
    rw [Advance.through_of_none (Call.falter_falters hi.refines hfalter).delivery_eq]
    exact .falter hworker hhandle hfalter
  | attach hunused hidentity hpreamble =>
    rw [List.map_eq_nil_iff.mp ho]
    exact .attach hunused hidentity hpreamble
  | call hidle hopen hkept hfits =>
    rw [List.map_eq_nil_iff.mp ho]
    exact .call hidle hopen hkept hfits
  | leave hidle hopen hunused hpurpose =>
    rw [List.map_eq_nil_iff.mp ho]
    exact .leave hidle hopen hunused hpurpose
  | expire hworker hexpire =>
    rw [List.map_eq_nil_iff.mp ho]
    exact .expire hworker hexpire
  | stir sleeper =>
    rw [List.map_eq_nil_iff.mp ho]
    exact .stir sleeper

/-- With other reports of the notifier the same run goes on in the same way. -/
theorem Run.of_smooth {S₀ : System} (hi : Inv s S₀ a) (hr : Run S₀ history S) :
    ∀ {other : List Happening},
      other.map Happening.smooth = history.map Happening.smooth → Run S₀ other S := by
  induction hr with
  | start =>
    intro other ho
    rw [List.map_eq_nil_iff.mp ho]
    exact .start
  | step hrun hstep ih =>
    intro other ho
    obtain ⟨b, hb⟩ := hrun.inv hi
    rw [List.map_append] at ho
    obtain ⟨before, after, rfl, hbefore, hafter⟩ := List.map_eq_append_iff.mp ho
    exact .step (ih hbefore) (hstep.of_smooth hb hafter)

/-- Each delivery of a history has one registration that is in force, and no other delivery
has the same one. -/
def Matched (history : List Happening) : Prop :=
  (∀ k thread d report, history[k]? = some (.delivered thread d report) →
    ∃! i, InForce history i k d) ∧
  ∀ i k k' thread thread' d d' report report',
    history[k]? = some (.delivered thread d report) → InForce history i k d →
    history[k']? = some (.delivered thread' d' report') → InForce history i k' d' → k = k'

/-- A delivery is made by a send that finds the queue empty and no receiver waiting. What is
delivered is what is registered, and the send ends with the same step and its message is
then the only one on the queue. -/
def DeliversOnSend (s : Sizing) (S : System) : Prop :=
  ∀ shown S' thread d report, Step S shown S' → .delivered thread d report ∈ shown →
    S.shared.region.read .queued = 0 ∧ S.shared.region.read .waiting = 0 ∧
    S.shared.region.registered = some d ∧
    ∃ identity bytes priority deadline buffer,
      shown = [.delivered thread d report,
        .answered thread identity (.send bytes priority deadline) (.ok .sent) buffer] ∧
      Represents s S'.shared.region [⟨bytes, priority⟩]

/-- A call that asks for a registration is refused as busy exactly if it finds another identity
registered that is alive, and then nothing changes but that the lock is free again. If it is
not refused so when it holds the lock, it is registered. -/
def RegistersUnlessBusy (S : System) (registered : Option Delivery) : Prop :=
  ∀ thread w h event around pick next, S.workers thread = some w →
    S.handles w.number = some h → w.call.request = .notify (some event) →
    w.call.step thread h around pick S.shared = some next →
    (next.call.point = .answered (.error .busy) ↔ w.call.point = .inside ∧
      ∃ held ∈ registered, held.owner ≠ h.identity ∧ around.herald.alive held.owner = true) ∧
    (next.call.point = .answered (.error .busy) →
      next.shared = { S.shared with holder := none } ∧ next.delivery = none ∧
        next.nonblocking = h.nonblocking) ∧
    (w.call.point = .inside → next.call.point ≠ .answered (.error .busy) →
      next.call.point = .answered (.ok .notified) ∧
        next.shared.region.registered = some ⟨h.identity, event⟩)

/-- A call that withdraws a registration changes no byte if its identity is not the one
registered. -/
def WithdrawsOwnOnly (S : System) (registered : Option Delivery) : Prop :=
  ∀ thread w h around pick next, S.workers thread = some w →
    S.handles w.number = some h → w.call.request = .notify none →
    (∀ held ∈ registered, held.owner ≠ h.identity) →
    w.call.step thread h around pick S.shared = some next →
    next.shared.region = S.shared.region ∧ next.delivery = none

theorem Run.matched (hm : Made s q) (hr : Run (idle q) history S) : Matched history := by
  obtain ⟨a, -, -, hdelivered⟩ := hr.registered hm
  refine ⟨fun k thread d report hk => ?_,
    fun i k k' thread thread' d d' report report' hk h hk' h' => h.once h' hk hk'⟩
  obtain ⟨i, hi⟩ := hdelivered k thread d report hk
  exact ⟨i, hi, fun i' hi' => hi'.unique hi⟩

theorem Inv.deliversOnSend (hi : Inv s S a) : S.DeliversOnSend s := by
  intro shown S' thread d report hstep hmem
  obtain ⟨b, hb, he⟩ := hstep.effect hi
  obtain ⟨hquiet, hheld, identity, bytes, priority, deadline, buffer, hshown, hmessages⟩ :=
    he.delivered hi.valid.1.1 hmem
  refine ⟨?_, hi.refines.waiting_eq.trans hquiet.2, hi.refines.registered_eq.trans hheld, identity,
    bytes, priority, deadline, buffer, hshown, ?_⟩
  · rw [hi.refines.read_queued, hquiet.1]
    rfl
  · rw [← hmessages]
    exact hb.refines.represents

theorem Inv.registersUnlessBusy (hi : Inv s S a) : S.RegistersUnlessBusy a.registered := by
  intro thread w h event around pick next hworker hhandle hrequest hstep
  obtain ⟨rfl, hh⟩ := hi.handles _ h hhandle
  have hw := hi.workers _ w hworker
  have hbusy := Call.busy_of_step hi.valid hh hw.fits (hw.admitted h rfl) hi.refines hrequest hstep
  have hrefused : w.call.point = .inside → a.Busy around.herald.alive h.identity →
      next = { call := { w.call with point := .answered (.error .busy) },
               shared := { S.shared with holder := none }, nonblocking := h.nonblocking } := by
    intro hpoint hb
    rw [Call.step_register_busy hi.refines hpoint hrequest hb] at hstep
    exact (Option.some.inj hstep).symm
  refine ⟨⟨hbusy, fun ⟨hpoint, hb⟩ => ?_⟩, fun hanswer => ?_, fun hpoint hanswer => ?_⟩
  · rw [hrefused hpoint hb]
  · rw [hrefused (hbusy hanswer).1 (hbusy hanswer).2]
    exact ⟨rfl, rfl, rfl⟩
  · refine Call.step_register_free hi.valid hh hw.fits hi.refines hpoint hrequest ?_ hstep
    intro hb
    rw [hrefused hpoint hb] at hanswer
    exact hanswer rfl

theorem Inv.withdrawsOwnOnly (hi : Inv s S a) : S.WithdrawsOwnOnly a.registered := by
  intro thread w h around pick next hworker hhandle hrequest hother hstep
  obtain ⟨rfl, hh⟩ := hi.handles _ h hhandle
  exact Call.region_of_withdraw_other hi.refines hh hrequest hother hstep

end System

/-- Every delivery of a run answers one registration that is in force, and is made by a send
that succeeds with it. A registration is refused exactly to those who find another identity
registered and alive, and a withdrawal ends no registration but one's own. What the notifier
reports makes no difference: with any other reports the same run leads to the same state. -/
theorem notified_once (hm : Made s q) (hr : System.Run (System.idle q) history S) :
    System.Matched history ∧ S.shared.region.registered = standing history ∧
      S.DeliversOnSend s ∧ S.RegistersUnlessBusy (standing history) ∧
      S.WithdrawsOwnOnly (standing history) ∧
      ∀ other : List Happening, other.map Happening.smooth = history.map Happening.smooth →
        System.Run (System.idle q) other S := by
  obtain ⟨hs, hfresh⟩ := hm.fresh
  obtain ⟨a, hi, hregistered, -⟩ := hr.registered hm
  rw [← hregistered]
  exact ⟨hr.matched hm, hi.refines.registered_eq, hi.deliversOnSend, hi.registersUnlessBusy,
    hi.withdrawsOwnOnly, fun other ho => hr.of_smooth (System.Inv.idle hs hfresh) ho⟩

/-- A delivery fails, and the send that made it succeeds; then the lock fails for another send. -/
theorem notified_before_failed_lock : ∃ q history S, Made ⟨2, 4⟩ q ∧
    System.Run (System.idle q) history S ∧
    history = [.answered 0 1 (.notify (some ⟨.signal, 10, 5⟩)) (.ok .notified) .empty,
      .delivered 1 ⟨1, ⟨.signal, 10, 5⟩⟩ (.error (.code 3)),
      .answered 1 1 (.send ⟨#[7]⟩ 3 none) (.ok .sent) .empty,
      .answered 2 1 (.send ⟨#[8]⟩ 3 none) (.error (.system (.code 22))) .empty] ∧
    System.Matched history ∧ S.shared.region.registered = none ∧ S.DeliversOnSend ⟨2, 4⟩ := by
  obtain ⟨q, hm⟩ := exists_made (s := ⟨2, 4⟩) (by decide)
  let failing : Herald := ⟨fun _ => true, fun _ => .error (.code 3)⟩
  obtain ⟨S, hattach, hcalm⟩ := System.exists_calm hm 0 1 true (by decide)
  obtain ⟨S₁, hregister, hcalm₁⟩ := hcalm.call 0 ⟨false, 0, 0, failing⟩
    (.notify (some ⟨.signal, 10, 5⟩)) .empty rfl (by decide) rfl rfl rfl
  obtain ⟨S₂, hsend, hcalm₂⟩ := hcalm₁.call 1 ⟨false, 0, 0, failing⟩
    (.send ⟨#[7]⟩ 3 none) .empty rfl trivial rfl rfl rfl
  obtain ⟨S₃, hbarred⟩ := hcalm₂.rest.barred 2 ⟨false, 0, 0, failing⟩ (.send ⟨#[8]⟩ 3 none) .empty
    (.code 22) rfl rfl trivial rfl
  have hrun := ((hattach.trans hregister).trans hsend).trans hbarred
  obtain ⟨hmatched, hregistered, hdelivers, -⟩ := notified_once hm hrun
  exact ⟨q, _, S₃, hm, hrun, rfl, hmatched, hregistered, hdelivers⟩

end MappedQueue
