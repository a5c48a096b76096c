import MappedQueue.Proofs.Calls

/-!
# Calls that are left alone

A call that finds the lock free and is left alone takes a few steps to its first turn. If that
ends the call, it is over; otherwise, if its deadline has passed, it gives up after a few
more.
-/

namespace MappedQueue

/-- A call comes from one point to another in a number of steps of its thread, while nobody else
does anything. None of the steps delivers something or changes the mode of the handle. -/
inductive Call.Comes (me : Nat) (h : Handle) (around : Surroundings) :
    Nat → Shared → Call → Shared → Call → Prop
  | here {q : Shared} {c : Call} : Comes me h around 0 q c q c
  | goes {n : Nat} {q q' q'' : Shared} {c c' c'' : Call}
      (hstep : c.step me h around 0 q =
        some { call := c', shared := q', nonblocking := h.nonblocking })
      (honward : c'.point.Onward) (hrest : Comes me h around n q' c' q'' c'') :
      Comes me h around (n + 1) q c q'' c''

/-- A call comes to its end in a number of steps of its thread, while nobody else does
anything. Only the last step may deliver something or change the mode of the handle. -/
inductive Call.Passes (me : Nat) (h : Handle) (around : Surroundings) :
    Nat → Shared → Call → Advance → Prop
  | ends {q : Shared} {c : Call} {last : Advance} {answer : Answer}
      (hstep : c.step me h around 0 q = some last) (hanswer : last.call.point = .answered answer) :
      Passes me h around 1 q c last
  | goes {n : Nat} {q q' : Shared} {c c' : Call} {last : Advance}
      (hstep : c.step me h around 0 q =
        some { call := c', shared := q', nonblocking := h.nonblocking })
      (honward : c'.point.Onward) (hrest : Passes me h around n q' c' last) :
      Passes me h around (n + 1) q c last

namespace Call

variable {me n k : Nat} {h : Handle} {around : Surroundings} {q q' q'' : Shared} {a b b' : Ideal}
  {request : Request} {buffer : ByteArray} {c c' c'' : Call} {last : Advance} {t t' : Turn}
  {answer : Answer} {wake : Option Condition} {seen : Nat}

theorem Comes.trans (hc : Comes me h around n q c q' c')
    (hc' : Comes me h around k q' c' q'' c'') : Comes me h around (k + n) q c q'' c'' := by
  induction hc with
  | here => exact hc'
  | goes hstep honward _ ih => exact .goes hstep honward (ih hc')

theorem Comes.passes (hc : Comes me h around n q c q' c')
    (hp : Passes me h around k q' c' last) : Passes me h around (k + n) q c last := by
  induction hc with
  | here => exact hp
  | goes hstep honward _ ih => exact .goes hstep honward (ih hp)

theorem Comes.orphaned_eq (hc : Comes me h around n q c q' c') (ho : q.orphaned = false) :
    q'.orphaned = false := by
  induction hc with
  | here => exact ho
  | goes hstep _ _ ih => exact ih (orphaned_of_step ho hstep)

/-- A call that comes to its end comes to its last step first. -/
theorem Passes.comes (hp : Passes me h around n q c last) :
    ∃ k q' c' answer, Comes me h around k q c q' c' ∧ c'.step me h around 0 q' = some last ∧
      last.call.point = .answered answer := by
  induction hp with
  | ends hstep hanswer => exact ⟨0, _, _, _, .here, hstep, hanswer⟩
  | goes hstep honward _ ih =>
    obtain ⟨k, q', c', answer, hcomes, hlast, hanswer⟩ := ih
    exact ⟨k + 1, q', c', answer, .goes hstep honward hcomes, hlast, hanswer⟩

/-- Where the call goes on without anything shared changing. -/
theorem Comes.by_way {point : Point} (hway : Way me h around q c c.point point)
    (honward : point.Onward) (hrest : Comes me h around n q { c with point } q'' c'') :
    Comes me h around (n + 1) q c q'' c'' :=
  .goes (step_of_pace (.goes rfl hway)) honward hrest

/-- The way to the lock of a call that is not turned away on its arrival. -/
theorem Comes.atDoor (harrive : arrive h around q ⟨request, buffer, .arriving⟩ = .knocking)
    (htagged : q.tagged = true) :
    Comes me h around 2 q ⟨request, buffer, .arriving⟩ q
      ⟨request, buffer, .atDoor around.interruptions⟩ :=
  .by_way (.accepted harrive) trivial (.by_way (.tagged fun _ => htagged) trivial .here)

/-- The way to the first turn of such a call. -/
theorem Comes.enters (harrive : arrive h around q ⟨request, buffer, .arriving⟩ = .knocking)
    (htagged : q.tagged = true) (hfree : q.holder = none) :
    Comes me h around 3 q ⟨request, buffer, .arriving⟩ (q.seize me)
      ⟨request, buffer, .inside⟩ :=
  (Comes.atDoor harrive htagged).trans (.goes (step_of_pace (.enters rfl hfree)) trivial .here)

theorem arrive_of_accepted (hcancelled : around.cancelled = false) (htagged : q.tagged = true)
    (haccepted : refusal? h buffer request = none) :
    arrive h around q ⟨request, buffer, .arriving⟩ = .knocking := by
  unfold arrive
  cases request.transfers <;> simp [hcancelled, htagged, haccepted]

/-- The way to the first turn. -/
theorem Comes.inside (hcancelled : around.cancelled = false) (htagged : q.tagged = true)
    (haccepted : refusal? h buffer request = none) (hfree : q.holder = none) :
    Comes me h around 3 q ⟨request, buffer, .arriving⟩ (q.seize me)
      ⟨request, buffer, .inside⟩ :=
  .enters (arrive_of_accepted hcancelled htagged haccepted) htagged hfree

/-- The way from the turn after which a call has to wait to the look at the clock. -/
theorem Comes.clock (hcancelled : around.cancelled = false) :
    Comes me h around 2 q ⟨request, buffer, .waitCancelled⟩ q
      ⟨request, buffer, .waitClock around.interruptions⟩ :=
  .by_way (.waitOn hcancelled) trivial (.by_way .waitCounted trivial .here)

/-- The way to the turn in which a call gives up that has to wait, because its deadline has
passed. -/
theorem Comes.quitting (hcancelled : around.cancelled = false)
    (hlate : late around.now ⟨request, buffer, .waitClock around.interruptions⟩ = true) :
    Comes me h around 3 q ⟨request, buffer, .waitCancelled⟩ q
      ⟨request, buffer, .quitting .timedOut⟩ :=
  (Comes.clock hcancelled).trans (.by_way (.waitLate hlate) trivial .here)

/-- The way into sleep of a call that has to wait and has time left. -/
theorem Comes.asleep (hcancelled : around.cancelled = false)
    (hearly : late around.now ⟨request, buffer, .waitClock around.interruptions⟩ = false) :
    Comes me h around 3 q ⟨request, buffer, .waitCancelled⟩
      { q with holder := none, sleepers := q.sleepers ++ [(me, request.condition)] }
      ⟨request, buffer, .asleep around.interruptions⟩ :=
  (Comes.clock hcancelled).trans (.goes (step_of_pace (.sleeps rfl hearly)) trivial .here)

/-- The way from sleep to the next look at the queue, for a call that has been woken. -/
theorem Comes.looking (hwoken : (me, request.condition) ∉ q.sleepers) (hfree : q.holder = none) :
    Comes me h around 2 q ⟨request, buffer, .asleep seen⟩ (q.seize me)
      ⟨request, buffer, .looking⟩ :=
  .by_way (.woken hwoken) trivial (.goes (step_of_pace (.returns rfl hfree)) trivial .here)

/-- The way back to the lock from the end of a slice of sleep, for a call that is not
cancelled. The lock is in order. -/
theorem Comes.back (hfree : q.holder = none) (horphaned : q.orphaned = false)
    (hcancelled : around.cancelled = false) :
    Comes me h around 2 q ⟨request, buffer, .roused seen false⟩ (q.seize me)
      ⟨request, buffer, .backInterrupted seen⟩ := by
  have hreturns : step me h around 0 q ⟨request, buffer, .roused seen false⟩ =
      some { call := ⟨request, buffer, .backCancelled seen⟩, shared := q.seize me,
             nonblocking := h.nonblocking } := by
    have hstep : step me h around 0 q ⟨request, buffer, .roused seen false⟩ = _ :=
      step_of_pace (.returns rfl hfree)
    rw [horphaned] at hstep
    exact hstep
  exact .goes hreturns trivial (.by_way (.backOn hcancelled) trivial .here)

/-- The way from the end of a slice of sleep in which an interruption has come to the turn in
which a call gives up. -/
theorem Comes.interrupted (hfree : q.holder = none) (horphaned : q.orphaned = false)
    (hcancelled : around.cancelled = false) (hcame : around.interruptions ≠ seen)
    (hpolicy : request.waitPolicy = .fail) :
    Comes me h around 3 q ⟨request, buffer, .roused seen false⟩ (q.seize me)
      ⟨request, buffer, .quitting .interrupted⟩ :=
  (Comes.back hfree horphaned hcancelled).trans
    (.by_way (.backInterrupted hcame hpolicy) trivial .here)

/-- The way from the end of a slice of sleep to the look at the clock, for a call that is neither
cancelled nor interrupted. -/
theorem Comes.backClock (hfree : q.holder = none) (horphaned : q.orphaned = false)
    (hcancelled : around.cancelled = false) (hcalm : around.interruptions = seen) :
    Comes me h around 3 q ⟨request, buffer, .roused seen false⟩ (q.seize me)
      ⟨request, buffer, .backClock⟩ :=
  (Comes.back hfree horphaned hcancelled).trans
    (.by_way (.backCalm fun hcame => absurd hcalm hcame) trivial .here)

/-- A call that a turn has wait. -/
theorem Comes.of_wait (hs : h.sizing.Valid) (hh : h.Fits) (hfits : c.request.Fits)
    (haccepted : refusal? h c.buffer c.request = none) (hr : Refines h.sizing q.region a)
    (hturn : a.turn h around.herald c = some (t, b)) (hwait : t.verdict = .wait)
    (hbuffer : t.buffer = c.buffer) (hnonblocking : t.nonblocking = h.nonblocking)
    (hdelivery : t.delivery = none) :
    ∃ q', Comes me h around 1 q c q' { c with point := .waitCancelled } ∧
      Refines h.sizing q'.region b ∧ q'.sleepers = q.sleepers := by
  obtain ⟨next, hstep⟩ : ∃ next, c.step me h around 0 q = some next := exists_step_of_turn hturn
  obtain ⟨hcall, hrefines, hmode, hnone, -, hsleepers⟩ :=
    step_turn hs hh hfits (fun _ => haccepted) hr hturn hstep
  obtain ⟨call, shared, nonblocking, delivery⟩ := next
  dsimp only at hcall hrefines hmode hnone hsleepers
  rw [Turn.point, hwait, hbuffer] at hcall
  rw [hcall, hmode.trans hnonblocking, hnone.trans hdelivery] at hstep
  rw [Turn.sleepers, hwait] at hsleepers
  exact ⟨shared, .goes hstep trivial .here, hrefines, hsleepers⟩

/-- What is left when a turn has ended a call: its answer, what the turn left behind, and a
queue that nobody has locked. -/
structure Settles (h : Handle) (request : Request) (b : Ideal) (t : Turn) (answer : Answer)
    (last : Advance) : Prop where
  call_eq : last.call = ⟨request, t.buffer, .answered answer⟩
  nonblocking_eq : last.nonblocking = t.nonblocking
  delivery_eq : last.delivery = t.delivery
  holder_eq : last.shared.holder = none
  refines : Refines h.sizing last.shared.region b

/-- A call that stands in front of the turn which ends it. -/
theorem Passes.of_finish (hs : h.sizing.Valid) (hh : h.Fits) (hfits : c.request.Fits)
    (haccepted : refusal? h c.buffer c.request = none) (hr : Refines h.sizing q.region a)
    (hturn : a.turn h around.herald c = some (t, b)) (hverdict : t.verdict = .finish answer wake) :
    ∃ last, Passes me h around 1 q c last ∧ Settles h c.request b t answer last ∧
      last.shared.sleepers = t.sleepers 0 q.sleepers := by
  obtain ⟨last, hstep⟩ : ∃ last, c.step me h around 0 q = some last := exists_step_of_turn hturn
  obtain ⟨hcall, hrefines, hnonblocking, hdelivery, hholder, hsleepers⟩ :=
    step_turn hs hh hfits (fun _ => haccepted) hr hturn hstep
  have hpoint : t.point = .answered answer := by
    rw [Turn.point, hverdict]
  rw [hpoint] at hcall
  refine ⟨last, .ends hstep (by rw [hcall]),
    ⟨hcall, hnonblocking, hdelivery, ?_, hrefines⟩, hsleepers⟩
  rw [hholder, Turn.holder, hverdict]

/-- A call whose first turn ends it. -/
theorem Passes.of_first_finish (hs : h.sizing.Valid) (hh : h.Fits) (hfits : request.Fits)
    (hcancelled : around.cancelled = false) (haccepted : refusal? h buffer request = none)
    (hfree : q.holder = none) (hr : Refines h.sizing q.region a)
    (hfirst : a.first h around.herald buffer request = (t, b))
    (hverdict : t.verdict = .finish answer wake) :
    ∃ last, Passes me h around 4 q ⟨request, buffer, .arriving⟩ last ∧
      Settles h request b t answer last ∧ last.shared.sleepers = t.sleepers 0 q.sleepers := by
  have hturn : a.turn h around.herald ⟨request, buffer, .inside⟩ = some (t, b) :=
    congrArg some hfirst
  obtain ⟨last, hpasses, hsettles⟩ := Passes.of_finish (q := q.seize me)
    hs hh hfits haccepted hr hturn hverdict
  have htagged : q.tagged = true := decide_eq_true hr.represents.tag_eq
  exact ⟨last, (Comes.inside hcancelled htagged haccepted hfree).passes hpasses, hsettles⟩

/-- A call that has to wait after its first turn, and is late. -/
theorem Passes.of_first_wait (hs : h.sizing.Valid) (hh : h.Fits) (hfits : request.Fits)
    (hcancelled : around.cancelled = false) (haccepted : refusal? h buffer request = none)
    (hfree : q.holder = none) (hr : Refines h.sizing q.region a)
    (hfirst : a.first h around.herald buffer request = (t, b))
    (hwait : t.verdict = .wait) (hbuffer : t.buffer = buffer)
    (hnonblocking : t.nonblocking = h.nonblocking) (hdelivery : t.delivery = none)
    (hlate : late around.now ⟨request, buffer, .waitClock around.interruptions⟩ = true)
    (hquit : b.giveUp h buffer .timedOut request = (t', b'))
    (hverdict : t'.verdict = .finish answer wake) :
    ∃ last, Passes me h around 8 q ⟨request, buffer, .arriving⟩ last ∧
      Settles h request b' t' answer last := by
  have htagged : q.tagged = true := decide_eq_true hr.represents.tag_eq
  obtain ⟨q', hwaits, hrefines, -⟩ := Comes.of_wait (q := q.seize me)
    (c := ⟨request, buffer, .inside⟩) hs hh hfits haccepted hr (congrArg some hfirst) hwait hbuffer
    hnonblocking hdelivery
  have hturn' : b.turn h around.herald ⟨request, buffer, .quitting .timedOut⟩ = some (t', b') :=
    congrArg some hquit
  obtain ⟨last, hpasses, hsettles, -⟩ :=
    Passes.of_finish (q := q') hs hh hfits haccepted hrefines hturn' hverdict
  have hway := ((Comes.inside hcancelled htagged haccepted hfree).trans hwaits).trans
    (Comes.quitting hcancelled hlate)
  exact ⟨last, hway.passes hpasses, hsettles⟩

end Call

end MappedQueue
