import MappedQueue.Proofs.Moves
import MappedQueue.Proofs.Progress

/-!
# Which arrivals are announced

Whether a message is announced is decided when its send comes inside for the first time. A
send that finds the queue empty then and nobody waiting takes the registration along. A send
that has to wait for room finds the queue full then; if the queue is empty when it goes on, its
message is the first one again, but it is not announced, and whoever is registered stays
registered.
-/

namespace MappedQueue

variable {s : Sizing} {q : Shared} {S : System} {a b : Ideal} {history : List Happening}
  {thread pick : Nat} {w : Worker} {h : Handle} {around : Surroundings} {next : Advance}
  {bytes : ByteArray} {priority : Nat} {deadline : Option Nat} {d : Delivery} {c : Call}
  {t : Turn} {herald : Herald}

namespace Ideal

theorem trySend_of_empty (hempty : a.messages = []) (hcapacity : 0 < h.sizing.capacity)
    (m : Message) :
    a.trySend h m = (.finish (.ok .sent) (some .notEmpty), { a with messages := [m] }) := by
  have hroom : a.messages.length < h.sizing.capacity := by
    rw [hempty]
    exact hcapacity
  rw [trySend, if_pos hroom, if_pos hempty, hempty]
  rfl

/-- A send that puts the first message on the queue while nobody waits takes the registration
along if it has not waited itself, and leaves it alone if it has. -/
theorem turn_of_arrival (hcapacity : 0 < h.sizing.capacity)
    (ht : a.turn h herald c = some (t, b)) (hrequest : c.request = .send bytes priority deadline)
    (hquiet : a.Quiet) (harrives : b.messages ≠ []) :
    t.point = .answered (.ok .sent) ∧
      t.delivery = (if c.point.waits then none else a.registered.map herald.dispatch) ∧
      b.registered = (if c.point.waits then a.registered else none) := by
  rcases turn_cases ht with ⟨hpoint, rfl, rfl⟩ | ⟨hpoint, rfl, rfl⟩ | ⟨setback, -, rfl, rfl⟩
  · have hsent := trySend_of_empty (a := { a with registered := none }) hquiet.1 hcapacity
      ⟨bytes, priority⟩
    rw [hpoint]
    simp only [hrequest, first, fired, due, if_pos hquiet, hsent]
    exact ⟨rfl, rfl, rfl⟩
  · rw [hpoint]
    simp only [hrequest, again, trySend_of_empty hquiet.1 hcapacity]
    exact ⟨rfl, rfl, rfl⟩
  · rw [hrequest] at harrives
    exact absurd hquiet.1 harrives

end Ideal

namespace System

/-- A send that has waited for room and holds the lock again. -/
def latecomer : Worker := ⟨0, .request, ⟨.send ⟨#[2]⟩ 0 none, .empty, .looking⟩⟩

/-- The queue is full, a send waits, somebody registers, the message is taken, and the send
that waited comes to look at the empty queue. -/
theorem exists_latecomer : ∃ q history S, Made ⟨1, 4⟩ q ∧ Run (idle q) history S ∧
    Inv ⟨1, 4⟩ S { registered := some ⟨1, Event.nothing⟩ } ∧ S.workers 1 = some latecomer ∧
    S.handles 0 = some ⟨⟨1, 4⟩, 1, false⟩ ∧
    ∀ thread d report, .delivered thread d report ∉ history := by
  obtain ⟨q, hm⟩ := exists_made (s := ⟨1, 4⟩) (by decide)
  let around : Surroundings := ⟨false, 0, 0, .smooth⟩
  let m : Message := ⟨⟨#[1]⟩, 0⟩
  obtain ⟨S₀, hattach, hrest₀⟩ := exists_rest hm 0 around 0 1 false (by decide)
  obtain ⟨S₁, hsend₁, hrest₁⟩ := hrest₀.call (b := { messages := [m] }) 0 around
    (.send m.bytes 0 none) .empty rfl rfl trivial rfl rfl rfl
  obtain ⟨S₂, hsleep₂, hrest₂⟩ := hrest₁.sleep 1 around (.send ⟨#[2]⟩ 0 none) .empty rfl rfl trivial
    rfl rfl rfl
  obtain ⟨S₃, hnotify₃, hrest₃⟩ := hrest₂.call
    (b := { messages := [m], registered := some ⟨1, Event.nothing⟩ }) 0 around
    (.notify (some Event.nothing)) .empty rfl rfl (by decide) rfl rfl rfl
  obtain ⟨S₄, hreceive₄, hrest₄⟩ := hrest₃.call
    (b := { registered := some ⟨1, Event.nothing⟩ }) 0 around
    (.receive none) ⟨#[0, 0, 0, 0]⟩ rfl rfl trivial rfl rfl rfl
  obtain ⟨S₅, hlook₅, hinv₅, hworker₅, hhandle₅⟩ := hrest₄.looks 1 around rfl (by decide)
  have hasleep := (hattach.trans hsend₁).prompted.trans hsleep₂.prompted
  have hpath := (hasleep.trans (hnotify₃.trans hreceive₄).prompted).trans hlook₅.prompted
  refine ⟨q, _, S₅, hm, hpath.run_of_prompted, hinv₅, hworker₅, hhandle₅, ?_⟩
  intro thread d report hmem
  change Happening.delivered thread d report ∈ [
    .answered 0 1 (.send m.bytes 0 none) (.ok .sent) .empty,
    .answered 0 1 (.notify (some Event.nothing)) (.ok .notified) .empty,
    .answered 0 1 (.receive none) (.ok (.received 1 0)) ⟨#[1, 0, 0, 0]⟩] at hmem
  simp only [List.mem_cons, reduceCtorEq, List.not_mem_nil, or_self] at hmem

/-- The step in which a send that has waited puts its message on the empty queue. -/
theorem exists_late_arrival : ∃ q history S h around next, Made ⟨1, 4⟩ q ∧
    Run (idle q) history S ∧ S.workers 1 = some latecomer ∧
    S.handles latecomer.number = some h ∧
    latecomer.call.step 1 h around 0 S.shared = some next ∧
    Refines ⟨1, 4⟩ S.shared.region { registered := some ⟨1, Event.nothing⟩ } ∧
    Refines ⟨1, 4⟩ next.shared.region
      { messages := [⟨⟨#[2]⟩, 0⟩], registered := some ⟨1, Event.nothing⟩ } ∧
    next.delivery = none ∧ next.shared.holder = none ∧
    ∀ thread d report, .delivered thread d report ∉ history := by
  obtain ⟨q, history, S, hm, hrun, hi, hworker, hhandle, hhistory⟩ := exists_latecomer
  let around : Surroundings := ⟨false, 0, 0, .smooth⟩
  have hturn : ({ registered := some ⟨1, Event.nothing⟩ } : Ideal).turn ⟨⟨1, 4⟩, 1, false⟩
      around.herald latecomer.call = some
        ({ verdict := .finish (.ok .sent) (some .notEmpty), buffer := .empty,
           nonblocking := false },
         { messages := [⟨⟨#[2]⟩, 0⟩], registered := some ⟨1, Event.nothing⟩ }) := rfl
  obtain ⟨next, hstep⟩ : ∃ next, latecomer.call.step 1 ⟨⟨1, 4⟩, 1, false⟩ around 0 S.shared =
    some next := Call.exists_step_of_turn hturn
  have hw := hi.workers 1 _ hworker
  obtain ⟨-, hrefines, -, hdelivery, hholder, -⟩ := Call.step_turn hi.valid
    (hi.handles 0 _ hhandle).2 hw.fits (hw.admitted ⟨⟨1, 4⟩, 1, false⟩ rfl) hi.refines hturn hstep
  exact ⟨q, history, S, _, around, next, hm, hrun, hworker, hhandle, hstep, hi.refines, hrefines,
    hdelivery, hholder, hhistory⟩

/-- A send that has waited can put its message on the empty queue, while somebody is registered
and nobody waits, and give the lock back without a delivery and with the registration still
there. -/
theorem late_arrival_unannounced : ∃ q history S h around next, Made ⟨1, 4⟩ q ∧
    Run (idle q) history S ∧ S.workers 1 = some latecomer ∧
    S.handles latecomer.number = some h ∧
    latecomer.call.step 1 h around 0 S.shared = some next ∧
    S.shared.region.read .queued = 0 ∧ next.shared.region.read .queued = 1 ∧
    S.shared.region.read .waiting = 0 ∧
    S.shared.region.registered = some ⟨1, Event.nothing⟩ ∧
    (∀ thread d report, .delivered thread d report ∉ history) ∧
    next.shared.holder = none ∧ next.delivery = none ∧
    next.shared.region.registered = some ⟨1, Event.nothing⟩ := by
  obtain ⟨q, history, S, h, around, next, hm, hrun, hworker, hhandle, hstep, hbefore, hafter,
    hdelivery, hholder, hhistory⟩ := exists_late_arrival
  exact ⟨q, history, S, h, around, next, hm, hrun, hworker, hhandle, hstep, hbefore.read_queued,
    hafter.read_queued, hbefore.waiting_eq, hbefore.registered_eq, hhistory, hholder, hdelivery,
    hafter.registered_eq⟩

/-- A send that puts a message on the empty queue while somebody is registered and nobody waits
delivers what is registered and ends the registration, if it did not have to wait for room. If
it had to, it delivers nothing and leaves the registration as it is. -/
theorem announced_unless_waited (hm : Made s q) (hr : Run (idle q) history S)
    (hworker : S.workers thread = some w) (hhandle : S.handles w.number = some h)
    (hrequest : w.call.request = .send bytes priority deadline)
    (hstep : w.call.step thread h around pick S.shared = some next)
    (hempty : S.shared.region.read .queued = 0) (harrives : next.shared.region.read .queued = 1)
    (hquiet : S.shared.region.read .waiting = 0)
    (hregistered : S.shared.region.registered = some d) :
    next.call.point = .answered (.ok .sent) ∧ next.shared.holder = none ∧
      next.delivery = (if w.call.point.waits then none else some (around.herald.dispatch d)) ∧
      next.shared.region.registered = (if w.call.point.waits then some d else none) := by
  obtain ⟨hs, hfresh⟩ := hm.fresh
  obtain ⟨a, hi⟩ := hr.inv (Inv.idle hs hfresh)
  obtain ⟨hsizing, hh⟩ := hi.handles _ h hhandle
  have hw := hi.workers _ w hworker
  subst hsizing
  cases ht : a.turn h around.herald w.call with
  | none =>
    rw [(Call.step_quiet ht hstep).region_eq, hempty] at harrives
    cases harrives
  | some taken =>
    obtain ⟨t, b⟩ := taken
    obtain ⟨hcall, hrefines, -, hdelivery, hholder, -⟩ :=
      Call.step_turn hi.valid hh hw.fits (hw.admitted h rfl) hi.refines ht hstep
    have hnone : a.messages = [] :=
      List.length_eq_zero_iff.mp (hi.refines.read_queued.symm.trans hempty)
    have hsome : b.messages ≠ [] := by
      intro hb
      rw [hrefines.read_queued, hb] at harrives
      cases harrives
    obtain ⟨hpoint, hdelivers, hclears⟩ := Ideal.turn_of_arrival hi.valid.1.1 ht hrequest
      ⟨hnone, hi.refines.waiting_eq.symm.trans hquiet⟩ hsome
    rw [← hi.refines.registered_eq, hregistered] at hdelivers hclears
    refine ⟨by rw [hcall, hpoint], ?_, hdelivery.trans hdelivers,
      hrefines.registered_eq.trans hclears⟩
    rw [hholder, Turn.holder]
    rw [Turn.point] at hpoint
    cases hv : t.verdict with
    | finish answer wake => rfl
    | wait =>
      rw [hv] at hpoint
      cases hpoint

theorem latecomer_unannounced : ∃ q history S h around next, Made ⟨1, 4⟩ q ∧
    Run (idle q) history S ∧ S.workers 1 = some latecomer ∧
    S.handles latecomer.number = some h ∧
    latecomer.call.step 1 h around 0 S.shared = some next ∧ latecomer.call.point.waits = true ∧
    next.call.point = .answered (.ok .sent) ∧ next.delivery = none ∧
    next.shared.region.registered = some ⟨1, Event.nothing⟩ := by
  obtain ⟨q, history, S, h, around, next, hm, hrun, hworker, hhandle, hstep, hbefore, hafter, -⟩ :=
    exists_late_arrival
  obtain ⟨hanswer, -, hdelivery, hregistered⟩ :=
    announced_unless_waited hm hrun hworker hhandle rfl hstep hbefore.read_queued
      hafter.read_queued hbefore.waiting_eq hbefore.registered_eq
  exact ⟨q, history, S, h, around, next, hm, hrun, hworker, hhandle, hstep, rfl, hanswer, hdelivery,
    hregistered⟩

end System

end MappedQueue
