import MappedQueue.Alone
import MappedQueue.Proofs.Passes

/-!
# Calls in a process with one thread

Left alone, a call settles: it comes to its end, or it falls asleep. A sleeping receiver goes on
from slice to slice. At the end of each it looks first whether an interruption came in it, and
then whether its deadline has passed. So a receiver that finds no message is ended by the first
slice that brings an interruption, if one does before the deadline, and otherwise by the
deadline; without a deadline it sleeps on.
-/

namespace MappedQueue

variable {herald : Herald} {h : Handle} {deadline : Option Nat} {buffer : ByteArray}
  {clock : Clock} {n k : Nat}

namespace Clock

/-- What a call sees around itself at a time. -/
def around (clock : Clock) (herald : Herald) : Surroundings :=
  ⟨false, clock.interruptions, clock.now, herald⟩

/-- How long a slice of sleep lasts that begins now. -/
def slice (clock : Clock) (deadline : Option Nat) : Nat :=
  match deadline with
  | some deadline => min (deadline - clock.now) 50
  | none => 50

/-- There is time left. -/
def Early (clock : Clock) (deadline : Option Nat) : Prop := ∀ d ∈ deadline, clock.now < d

/-- An interruption comes in one of the first slices, of which each begins before the deadline. -/
def Interrupts (clock : Clock) (deadline : Option Nat) (slices : Nat) : Prop :=
  ∃ i < slices, deadline.all (clock.now + 50 * i < ·) = true ∧
    clock.arrives (clock.now + 50 * i) = true

instance (clock : Clock) (deadline : Option Nat) (slices : Nat) :
    Decidable (clock.Interrupts deadline slices) :=
  inferInstanceAs (Decidable (∃ i < slices, _))

/-- What ends a wait that begins now, if anything does within so many slices. -/
def setback? (clock : Clock) (deadline : Option Nat) (slices : Nat) : Option Setback :=
  if clock.Interrupts deadline slices then some .interrupted
  else if deadline.isSome then some .timedOut else none

@[simp] theorem now_pass (clock : Clock) (slice : Nat) :
    (clock.pass slice).now = clock.now + slice := rfl

@[simp] theorem arrives_pass (clock : Clock) (slice : Nat) :
    (clock.pass slice).arrives = clock.arrives := rfl

theorem slice_le (clock : Clock) (deadline : Option Nat) : clock.slice deadline ≤ 50 := by
  cases deadline with
  | none => exact Nat.le_refl _
  | some d => exact Nat.min_le_right _ _

/-- A slice after which there is time left has its full length. -/
theorem slice_of_early_pass (hearly : (clock.pass (clock.slice deadline)).Early deadline) :
    clock.slice deadline = 50 := by
  cases deadline with
  | none => rfl
  | some d =>
    have hleft : clock.now + clock.slice (some d) < d := hearly d rfl
    simp only [slice] at hleft ⊢
    omega

theorem early_of_before {time : Nat} (hbefore : deadline.all (time < ·) = true)
    (hle : clock.now ≤ time) : clock.Early deadline := by
  intro d hd
  obtain rfl : deadline = some d := hd
  have htime : time < d := of_decide_eq_true hbefore
  omega

theorem not_interrupts_of_late (hlate : ¬ clock.Early deadline) (n : Nat) :
    ¬ clock.Interrupts deadline n := by
  rintro ⟨i, -, hbefore, -⟩
  exact hlate (early_of_before hbefore (by omega))

/-- The first slice brings an interruption, or one of the slices after it does. -/
theorem interrupts_succ_iff (hearly : clock.Early deadline) :
    clock.Interrupts deadline (n + 1) ↔ clock.arrives clock.now = true ∨
      (clock.pass (clock.slice deadline)).Interrupts deadline n := by
  have hle := clock.slice_le deadline
  constructor
  · rintro ⟨i, hi, hbefore, harrives⟩
    cases i with
    | zero => exact Or.inl harrives
    | succ i =>
      have hlater : (clock.pass (clock.slice deadline)).now ≤ clock.now + 50 * (i + 1) := by
        rw [now_pass]
        omega
      have hslice := slice_of_early_pass (early_of_before hbefore hlater)
      have hnow : (clock.pass (clock.slice deadline)).now + 50 * i = clock.now + 50 * (i + 1) := by
        rw [hslice, now_pass]
        omega
      refine Or.inr ⟨i, by omega, ?_⟩
      rw [hnow, arrives_pass]
      exact ⟨hbefore, harrives⟩
  · rintro (harrives | ⟨i, hi, hbefore, harrives⟩)
    · refine ⟨0, by omega, ?_, harrives⟩
      cases deadline with
      | none => rfl
      | some d => exact decide_eq_true (hearly d rfl)
    · have hslice := slice_of_early_pass (early_of_before hbefore (Nat.le_add_right _ _))
      have hnow : (clock.pass (clock.slice deadline)).now + 50 * i = clock.now + 50 * (i + 1) := by
        rw [hslice, now_pass]
        omega
      rw [hnow] at hbefore harrives
      exact ⟨i + 1, by omega, hbefore, harrives⟩

theorem setback?_of_late (hlate : ¬ clock.Early deadline) (n : Nat) :
    clock.setback? deadline n = some .timedOut := by
  have hsome : deadline.isSome = true := by
    cases deadline with
    | none => exact absurd (fun d hd => by cases hd) hlate
    | some d => rfl
  rw [setback?, if_neg (not_interrupts_of_late hlate n), if_pos hsome]

theorem setback?_succ (hearly : clock.Early deadline) (n : Nat) :
    clock.setback? deadline (n + 1) = if clock.arrives clock.now = true then some .interrupted
      else (clock.pass (clock.slice deadline)).setback? deadline n := by
  simp only [setback?, interrupts_succ_iff hearly]
  by_cases harrives : clock.arrives clock.now = true
  · rw [if_pos (Or.inl harrives), if_pos harrives]
  · rw [if_neg harrives]
    simp [harrives]

end Clock

namespace Alone

open Call (Comes Passes Settles)

theorem settle_of_comes {q q' : Shared} {c c' : Call} {deliveries : List Dispatch}
    (hc : Comes me h (clock.around herald) n q c q' c') :
    settle herald (k + n) ⟨q, c, h, clock, deliveries⟩ =
      settle herald k ⟨q', c', h, clock, deliveries⟩ := by
  induction hc with
  | here => rfl
  | @goes n q q₁ q' c c₁ c' hstep honward hrest ih =>
    have hadvance : advance herald ⟨q, c, h, clock, deliveries⟩ =
        some ⟨q₁, c₁, h, clock, deliveries⟩ := congrArg (Option.map _) hstep
    rw [← Nat.add_assoc, settle, hadvance]
    exact ih

/-- A call that is over stays as it is. -/
theorem settle_of_answered {a : Alone} {answer : Answer}
    (hpoint : a.call.point = .answered answer) :
    settle herald k a = a := by
  cases k with
  | zero => rfl
  | succ k =>
    have hadvance : advance herald a = none := by
      simp only [advance, Call.step, hpoint, Option.map_none]
    rw [settle, hadvance]

theorem settle_of_passes {q : Shared} {c : Call} {last : Advance} {deliveries : List Dispatch}
    (hp : Passes me h (clock.around herald) n q c last) :
    settle herald (k + n) ⟨q, c, h, clock, deliveries⟩ =
      ⟨last.shared, last.call, { h with nonblocking := last.nonblocking }, clock,
        last.delivery.toList ++ deliveries⟩ := by
  induction hp with
  | @ends q c last answer hstep hanswer =>
    have hadvance : advance herald ⟨q, c, h, clock, deliveries⟩ =
        some ⟨last.shared, last.call, { h with nonblocking := last.nonblocking }, clock,
          last.delivery.toList ++ deliveries⟩ := congrArg (Option.map _) hstep
    rw [settle, hadvance]
    exact settle_of_answered hanswer
  | @goes n q q' c c' last hstep honward hrest ih =>
    have hadvance : advance herald ⟨q, c, h, clock, deliveries⟩ =
        some ⟨q', c', h, clock, deliveries⟩ := congrArg (Option.map _) hstep
    rw [← Nat.add_assoc, settle, hadvance]
    exact ih

/-- What is settled and not blocked is not followed any further. -/
theorem run_of_settled {a : Alone} (hover : (a.settle herald stretch).expire = none) :
    run herald n a = a.settle herald stretch := by
  cases n with
  | zero => rfl
  | succ n => rw [run, hover]

theorem run_of_expire {a b : Alone} (hblocked : (a.settle herald stretch).expire = some b) :
    run herald (n + 1) a = run herald n b := by
  rw [run, hblocked]

/-- It makes no difference whether a call has settled already. -/
theorem run_congr {a b : Alone} (h : a.settle herald stretch = b.settle herald stretch) :
    run herald n a = run herald n b := by
  cases n with
  | zero => exact h
  | succ n => rw [run, run, h]

/-- The call is over, and has left a queue with these messages to whoever comes next. -/
structure Over (h : Handle) (answer : Answer) (buffer : ByteArray) (messages : List Message)
    (a : Alone) : Prop where
  point_eq : a.call.point = .answered answer
  buffer_eq : a.call.buffer = buffer
  deliveries_eq : a.deliveries = []
  holder_eq : a.shared.holder = none
  sleepers_eq : a.shared.sleepers = []
  represents : Represents h.sizing a.shared.region messages

/-- A receiver sleeps that has found no message and has time left. -/
structure Dozes (h : Handle) (deadline : Option Nat) (buffer : ByteArray) (a : Alone) : Prop where
  handle_eq : a.handle = h
  call_eq : a.call = ⟨.receive deadline, buffer, .asleep a.clock.interruptions⟩
  early : a.clock.Early deadline
  deliveries_eq : a.deliveries = []
  holder_eq : a.shared.holder = none
  orphaned_eq : a.shared.orphaned = false
  sleepers_eq : a.shared.sleepers = [(me, .notEmpty)]
  represents : Represents h.sizing a.shared.region []

/-- What a receiver has come to that finds no message: something has ended its wait, or it
sleeps on. -/
def CameTo (h : Handle) (deadline : Option Nat) (buffer : ByteArray) :
    Option Setback → Alone → Prop
  | some setback => Over h (.error setback.error) buffer []
  | none => Dozes h deadline buffer

variable {a b : Alone} {answer : Answer} {messages : List Message} {setback : Setback}

theorem Over.expire_eq (ho : Over h answer buffer messages a) : a.expire = none := by
  simp only [expire, Call.expire, ho.point_eq, Option.map_none]

theorem Over.run (ho : Over h answer buffer messages (a.settle herald stretch)) (n : Nat) :
    Over h answer buffer messages (a.run herald n) := by
  rw [run_of_settled ho.expire_eq]
  exact ho

theorem Dozes.point_eq (hd : Dozes h deadline buffer a) :
    a.call.point = .asleep a.clock.interruptions := by
  rw [hd.call_eq]

theorem Dozes.settle_eq (hd : Dozes h deadline buffer a) : a.settle herald k = a := by
  cases k with
  | zero => rfl
  | succ k =>
    have hadvance : advance herald a = none := by
      simp [advance, Call.step, hd.call_eq, hd.sleepers_eq, Request.condition]
    rw [settle, hadvance]

/-- What is left when the last turn of a call has ended it. -/
theorem over_of_settles {request : Request} {ideal : Ideal} {t : Turn} {last : Advance}
    (hsettles : Settles h request ideal t answer last) (hdelivery : t.delivery = none)
    (hsleepers : last.shared.sleepers = []) :
    Over h answer t.buffer ideal.messages ⟨last.shared, last.call,
      { h with nonblocking := last.nonblocking }, clock, last.delivery.toList ++ []⟩ where
  point_eq := by rw [hsettles.call_eq]
  buffer_eq := by rw [hsettles.call_eq]
  deliveries_eq := by
    rw [hsettles.delivery_eq, hdelivery]
    rfl
  holder_eq := hsettles.holder_eq
  sleepers_eq := hsleepers
  represents := hsettles.refines.represents

/-- A receiver that gives up leaves the queue without messages. -/
theorem over_of_quitting (setback : Setback) (hs : h.sizing.Valid) (hh : h.Fits)
    (hbuffer : h.sizing.messageSize ≤ buffer.size) {q : Shared}
    (hq : Represents h.sizing q.region []) (hsleepers : q.sleepers = []) :
    Over h (.error setback.error) buffer [] (settle herald (k + 1)
      ⟨q, ⟨.receive deadline, buffer, .quitting setback⟩, h, clock, []⟩) := by
  have hturn : (q.region.ideal []).turn h (clock.around herald).herald
      ⟨.receive deadline, buffer, .quitting setback⟩ = some (_, _) := rfl
  obtain ⟨last, hpasses, hsettles, hleft⟩ := Passes.of_finish
    (c := ⟨.receive deadline, buffer, .quitting setback⟩) hs hh trivial
    (if_neg (Nat.not_lt_of_le hbuffer)) hq.refines hturn rfl
  rw [settle_of_passes hpasses]
  exact over_of_settles hsettles rfl (hleft.trans hsleepers)

theorem late_eq_false_iff {point : Point} :
    Call.late clock.now ⟨.receive deadline, buffer, point⟩ = false ↔ clock.Early deadline := by
  cases deadline with
  | none => simp [Call.late, Request.deadline, Clock.Early]
  | some d => simp [Call.late, Request.deadline, Clock.Early]

theorem late_of_not_early {point : Point} (hlate : ¬ clock.Early deadline) :
    Call.late clock.now ⟨.receive deadline, buffer, point⟩ = true := by
  rw [← Bool.not_eq_false, late_eq_false_iff]
  exact hlate

theorem Dozes.expire_eq (hd : Dozes h deadline buffer a) : a.expire = some
    ⟨{ a.shared with sleepers := [] },
      ⟨.receive deadline, buffer, .roused a.clock.interruptions false⟩, h,
      a.clock.pass (a.clock.slice deadline), []⟩ := by
  have hlength : a.call.sliceLength a.clock.now = a.clock.slice deadline := by
    rw [hd.call_eq]
    cases deadline <;> rfl
  have hexpire : a.call.expire me a.shared = some ({ a.shared with sleepers := [] },
      ⟨.receive deadline, buffer, .roused a.clock.interruptions false⟩) := by
    simp [Call.expire, hd.call_eq, hd.sleepers_eq, Request.condition]
  simp only [expire, hexpire, Option.map_some, hlength, hd.handle_eq, hd.deliveries_eq]

theorem sleepers_of_none (t : Turn) (pick : Nat) : t.sleepers pick [] = [] := by
  unfold Turn.sleepers
  split
  · rfl
  · rfl

/-- A call that its first turn ends. It takes no time. -/
theorem run_first {request : Request} {q : Shared} {ideal left : Ideal} {t : Turn}
    {wake : Option Condition} (hs : h.sizing.Valid) (hh : h.Fits) (hfits : request.Fits)
    (haccepted : Call.refusal? h buffer request = none) (hr : Refines h.sizing q.region ideal)
    (hfree : q.holder = none) (hsleepers : q.sleepers = [])
    (hfirst : ideal.first h herald buffer request = (t, left))
    (hverdict : t.verdict = .finish answer wake) (hdelivery : t.delivery = none) {a : Alone}
    (ha : a = ⟨q, ⟨request, buffer, .arriving⟩, h, clock, []⟩) :
    Over h answer t.buffer left.messages (a.run herald n) ∧ (a.run herald n).clock = clock := by
  subst ha
  obtain ⟨last, hpasses, hsettles, hleft⟩ :
      ∃ last, Passes me h (clock.around herald) 4 q ⟨request, buffer, .arriving⟩ last ∧
        Settles h request left t answer last ∧ last.shared.sleepers = t.sleepers 0 q.sleepers :=
    Passes.of_first_finish hs hh hfits rfl haccepted hfree hr hfirst hverdict
  rw [hsleepers, sleepers_of_none] at hleft
  have hsettle : settle herald stretch ⟨q, ⟨request, buffer, .arriving⟩, h, clock, []⟩ =
      ⟨last.shared, last.call, { h with nonblocking := last.nonblocking }, clock,
        last.delivery.toList ++ []⟩ := settle_of_passes (k := 12) hpasses
  have hover : Over h answer t.buffer left.messages
      (settle herald stretch ⟨q, ⟨request, buffer, .arriving⟩, h, clock, []⟩) := by
    rw [hsettle]
    exact over_of_settles hsettles hdelivery hleft
  constructor
  · exact hover.run n
  · rw [run_of_settled hover.expire_eq, hsettle]

section Waiting

variable {q : Shared} {seen : Nat} (hs : h.sizing.Valid) (hh : h.Fits)
  (hbuffer : h.sizing.messageSize ≤ buffer.size)

include hs hh hbuffer

/-- A receiver that a turn has wait begins to wait. -/
theorem comes_to_wait {point : Point} {left : Ideal} (hq : Represents h.sizing q.region [])
    (hturn : (q.region.ideal []).turn h herald ⟨.receive deadline, buffer, point⟩ =
      some ({ verdict := .wait, buffer, nonblocking := h.nonblocking }, left))
    (hleft : left.messages = []) :
    ∃ q', Comes me h (clock.around herald) 1 q ⟨.receive deadline, buffer, point⟩ q'
        ⟨.receive deadline, buffer, .waitCancelled⟩ ∧
      Represents h.sizing q'.region [] ∧ q'.sleepers = q.sleepers := by
  obtain ⟨q', hwaits, hrefines, hsleepers⟩ :
      ∃ q', Comes me h (clock.around herald) 1 q ⟨.receive deadline, buffer, point⟩ q'
          ⟨.receive deadline, buffer, .waitCancelled⟩ ∧
        Refines h.sizing q'.region left ∧ q'.sleepers = q.sleepers :=
    Comes.of_wait hs hh trivial (if_neg (Nat.not_lt_of_le hbuffer)) hq.refines hturn rfl rfl rfl rfl
  exact ⟨q', hwaits, hleft ▸ hrefines.represents, hsleepers⟩

/-- If there is time left, it falls asleep. -/
theorem comes_to_doze {point : Point} {left : Ideal} (hearly : clock.Early deadline)
    (hq : Represents h.sizing q.region []) (horphaned : q.orphaned = false)
    (hsleepers : q.sleepers = [])
    (hturn : (q.region.ideal []).turn h herald ⟨.receive deadline, buffer, point⟩ =
      some ({ verdict := .wait, buffer, nonblocking := h.nonblocking }, left))
    (hleft : left.messages = []) :
    ∃ q', Comes me h (clock.around herald) 4 q ⟨.receive deadline, buffer, point⟩ q'
        ⟨.receive deadline, buffer, .asleep clock.interruptions⟩ ∧
      Dozes h deadline buffer
        ⟨q', ⟨.receive deadline, buffer, .asleep clock.interruptions⟩, h, clock, []⟩ := by
  obtain ⟨q', hwaits, hq', hsleepers'⟩ := comes_to_wait hs hh hbuffer hq hturn hleft
  have hsleeps : Comes me h (clock.around herald) 3 q' ⟨.receive deadline, buffer, .waitCancelled⟩
      { q' with holder := none, sleepers := q'.sleepers ++ [(me, .notEmpty)] }
      ⟨.receive deadline, buffer, .asleep clock.interruptions⟩ :=
    Comes.asleep rfl (late_eq_false_iff.mpr hearly)
  refine ⟨_, hwaits.trans hsleeps, ?_⟩
  constructor
  · rfl
  · rfl
  · exact hearly
  · rfl
  · rfl
  · exact hwaits.orphaned_eq horphaned
  · show q'.sleepers ++ [(me, .notEmpty)] = [(me, .notEmpty)]
    rw [hsleepers', hsleepers, List.nil_append]
  · exact hq'

/-- What becomes of a receiver at the end of a slice of sleep: an interruption that came in the
slice ends it, or else the deadline does if it has passed, and otherwise it falls asleep again. -/
theorem settle_roused (herald : Herald) (hq : Represents h.sizing q.region [])
    (hfree : q.holder = none) (horphaned : q.orphaned = false) (hsleepers : q.sleepers = [])
    {a : Alone} (ha : a = ⟨q, ⟨.receive deadline, buffer, .roused seen false⟩, h, clock, []⟩) :
    (clock.interruptions ≠ seen →
      Over h (.error (Setback.error .interrupted)) buffer [] (settle herald stretch a)) ∧
    (clock.interruptions = seen → ¬ clock.Early deadline →
      Over h (.error (Setback.error .timedOut)) buffer [] (settle herald stretch a)) ∧
    (clock.interruptions = seen → clock.Early deadline →
      Dozes h deadline buffer (settle herald stretch a) ∧
        (settle herald stretch a).clock = clock) := by
  subst ha
  have hlocked : Represents h.sizing (q.seize me).region [] := hq
  have hback : clock.interruptions = seen → Comes me h (clock.around herald) 3 q
      ⟨.receive deadline, buffer, .roused seen false⟩ (q.seize me)
      ⟨.receive deadline, buffer, .backClock⟩ :=
    fun hcalm => Comes.backClock hfree horphaned rfl hcalm
  constructor
  · intro hcame
    have hway : Comes me h (clock.around herald) 3 q ⟨.receive deadline, buffer, .roused seen false⟩
        (q.seize me) ⟨.receive deadline, buffer, .quitting .interrupted⟩ :=
      Comes.interrupted hfree horphaned rfl hcame rfl
    rw [show stretch = 13 + 3 from rfl, settle_of_comes hway]
    exact over_of_quitting .interrupted hs hh hbuffer hlocked hsleepers
  constructor
  · intro hcalm hlate
    have hquit : Call.step me h (clock.around herald) 0 (q.seize me)
        ⟨.receive deadline, buffer, .backClock⟩ =
        some { call := ⟨.receive deadline, buffer, .quitting .timedOut⟩,
               shared := q.seize me, nonblocking := h.nonblocking } := by
      have hover : Call.late clock.now ⟨.receive deadline, buffer, .backClock⟩ = true :=
        late_of_not_early hlate
      simp [Call.step, Clock.around, hover]
    have hway := (hback hcalm).trans (.goes hquit trivial .here)
    rw [show stretch = 12 + (1 + 3) from rfl, settle_of_comes hway]
    exact over_of_quitting .timedOut hs hh hbuffer hlocked hsleepers
  · intro hcalm hearly
    have hlook : Call.step me h (clock.around herald) 0 (q.seize me)
        ⟨.receive deadline, buffer, .backClock⟩ =
        some { call := ⟨.receive deadline, buffer, .looking⟩,
               shared := q.seize me, nonblocking := h.nonblocking } := by
      have hsoon : Call.late clock.now ⟨.receive deadline, buffer, .backClock⟩ = false :=
        late_eq_false_iff.mpr hearly
      simp [Call.step, Clock.around, hsoon]
    have hturn : (q.region.ideal []).turn h herald ⟨.receive deadline, buffer, .looking⟩ =
        some ({ verdict := .wait, buffer, nonblocking := h.nonblocking }, q.region.ideal []) := rfl
    obtain ⟨q', hasleep, hdozes⟩ := comes_to_doze hs hh hbuffer hearly hlocked rfl hsleepers hturn rfl
    have hway := ((hback hcalm).trans (.goes hlook trivial .here)).trans hasleep
    rw [show stretch = 8 + (4 + (1 + 3)) from rfl, settle_of_comes hway, hdozes.settle_eq]
    exact ⟨hdozes, rfl⟩

/-- A sleeping receiver is ended by what ends its wait, if it is followed until its deadline. -/
theorem Dozes.run (n : Nat) : ∀ {a : Alone}, Dozes h deadline buffer a →
    (∀ d ∈ deadline, d - a.clock.now ≤ n) →
    CameTo h deadline buffer (a.clock.setback? deadline n) (a.run herald n) := by
  induction n with
  | zero =>
    intro a hd hn
    -- With a deadline there would be time left.
    have hnone : deadline = none := by
      cases deadline with
      | none => rfl
      | some d =>
        have hearly : a.clock.now < d := hd.early d rfl
        have hleft : d - a.clock.now ≤ 0 := hn d rfl
        omega
    subst hnone
    have hrun : Alone.run herald 0 a = a := hd.settle_eq
    have hcalm : ¬ a.clock.Interrupts none 0 := by
      rintro ⟨i, hi, -⟩
      omega
    rw [hrun, Clock.setback?, if_neg hcalm]
    exact hd
  | succ n ih =>
    intro a hd hn
    generalize hwoken : (⟨{ a.shared with sleepers := [] },
      ⟨.receive deadline, buffer, .roused a.clock.interruptions false⟩, h,
      a.clock.pass (a.clock.slice deadline), []⟩ : Alone) = woken
    have hblocked : (a.settle herald stretch).expire = some woken := by
      rw [hd.settle_eq, hd.expire_eq, hwoken]
    obtain ⟨hcome, hlate, hdoze⟩ := settle_roused hs hh hbuffer herald
      (q := { a.shared with sleepers := [] }) hd.represents hd.holder_eq hd.orphaned_eq rfl hwoken.symm
    rw [run_of_expire hblocked, Clock.setback?_succ hd.early]
    by_cases harrives : a.clock.arrives a.clock.now = true
    · rw [if_pos harrives]
      exact (hcome (by simp [Clock.pass, harrives])).run n
    have hcalm : (a.clock.pass (a.clock.slice deadline)).interruptions = a.clock.interruptions := by
      simp [Clock.pass, harrives]
    rw [if_neg harrives]
    by_cases hearly : (a.clock.pass (a.clock.slice deadline)).Early deadline
    · obtain ⟨hdozes, hclock⟩ := hdoze hcalm hearly
      rw [run_congr (b := woken.settle herald stretch) hdozes.settle_eq.symm, ← hclock]
      apply ih hdozes
      -- A slice takes some of the time that is left.
      intro d hd'
      have hleft : d - a.clock.now ≤ n + 1 := hn d hd'
      have hsoon : a.clock.now < d := hd.early d hd'
      obtain rfl : deadline = some d := hd'
      rw [hclock, Clock.now_pass]
      simp only [Clock.slice]
      omega
    · rw [Clock.setback?_of_late hearly]
      exact (hlate hcalm hearly).run n

/-- A receiver that finds no message is ended by what ends its wait. -/
theorem run_receive_none (hmode : h.nonblocking = false) (hq : Represents h.sizing q.region [])
    (hfree : q.holder = none) (hsleepers : q.sleepers = [])
    (hn : ∀ d ∈ deadline, d - clock.now ≤ n) {a : Alone}
    (ha : a = ⟨q, ⟨.receive deadline, buffer, .arriving⟩, h, clock, []⟩) :
    CameTo h deadline buffer (clock.setback? deadline n) (a.run herald n) := by
  subst ha
  have hlocked : Represents h.sizing (q.seize me).region [] := hq
  have hturn : (q.region.ideal []).turn h herald ⟨.receive deadline, buffer, .inside⟩ =
      some ({ verdict := .wait, buffer, nonblocking := h.nonblocking },
        { q.region.ideal [] with waiting := (q.region.read .waiting + 1) % 2 ^ 32 }) := by
    simp [Ideal.turn, Ideal.first, Region.ideal, hmode]
  have hinside : Comes me h (clock.around herald) 3 q ⟨.receive deadline, buffer, .arriving⟩
      (q.seize me) ⟨.receive deadline, buffer, .inside⟩ :=
    Comes.inside rfl (decide_eq_true hq.tag_eq) (if_neg (Nat.not_lt_of_le hbuffer)) hfree
  by_cases hearly : clock.Early deadline
  · obtain ⟨q', hasleep, hdozes⟩ := comes_to_doze hs hh hbuffer hearly hlocked rfl hsleepers hturn rfl
    have hsame : settle herald stretch ⟨q, ⟨.receive deadline, buffer, .arriving⟩, h, clock, []⟩ =
        settle herald stretch
          ⟨q', ⟨.receive deadline, buffer, .asleep clock.interruptions⟩, h, clock, []⟩ := by
      rw [show stretch = 9 + (4 + 3) from rfl, settle_of_comes (hinside.trans hasleep),
        hdozes.settle_eq, hdozes.settle_eq]
    rw [run_congr hsame]
    exact Dozes.run hs hh hbuffer n hdozes hn
  · have hlate : Call.late clock.now
        ⟨.receive deadline, buffer, .waitClock clock.interruptions⟩ = true :=
      late_of_not_early hearly
    obtain ⟨q', hwaits, hq', hsleepers'⟩ := comes_to_wait hs hh hbuffer hlocked hturn rfl
    have hway := (hinside.trans hwaits).trans (Comes.quitting rfl hlate)
    have hover : Over h (.error (Setback.error .timedOut)) buffer []
        (settle herald stretch ⟨q, ⟨.receive deadline, buffer, .arriving⟩, h, clock, []⟩) := by
      rw [show stretch = 9 + (3 + (1 + 3)) from rfl, settle_of_comes hway]
      exact over_of_quitting .timedOut hs hh hbuffer hq' (hsleepers'.trans hsleepers)
    rw [Clock.setback?_of_late hearly]
    exact hover.run n

end Waiting

end Alone

end MappedQueue
