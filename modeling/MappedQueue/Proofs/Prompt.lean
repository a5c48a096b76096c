import MappedQueue.Proofs.Passes
import MappedQueue.Proofs.PriorityQueue

/-!
# Calls that do not wait

A call through a handle that does not block, or with a deadline that has passed, ends as the
call on the abstract queue does, if it finds the lock free and is left alone.
-/

namespace MappedQueue

/-- What a region means that holds the messages of an abstract queue, with nobody waiting and
nobody registered. -/
def PriorityQueue.ideal (a : PriorityQueue) : Ideal := { messages := a.messages }

namespace Errand

variable {me number : Nat} {h : Handle} {around : Surroundings} {q : Shared} {a : PriorityQueue}

/-- Admissible arguments are accepted. -/
theorem refusal_eq_none {errand : Errand} (ha : errand.Admissible h.sizing) :
    Call.refusal? h (errand.job h.sizing).buffer (errand.job h.sizing).request = none := by
  cases errand with
  | send m deadline =>
    exact (if_neg (Nat.not_le.mpr ha.2)).trans (if_neg (Nat.not_lt.mpr ha.1))
  | receive buffer deadline => exact if_neg (Nat.not_lt.mpr ha)
  | receiveNew => exact if_neg (Nat.not_lt.mpr (Nat.le_of_eq (Region.size_zeroBytes _).symm))
  | attributes => rfl
  | setNonblocking on => rfl

/-- What an errand needs to be done at once. -/
structure Ready (h : Handle) (around : Surroundings) (q : Shared) (a : PriorityQueue)
    (number : Nat) (errand : Errand) : Prop where
  valid : h.sizing.Valid
  fits : h.Fits
  not_cancelled : around.cancelled = false
  holder_eq : q.holder = none
  refines : Refines h.sizing q.region a.ideal
  nonblocking_eq : h.nonblocking = a.nonblocking number
  admissible : errand.Admissible h.sizing
  prompt : errand.Prompt (a.nonblocking number) around.now

/-- An errand is done within eight steps, and ends as it does on the abstract queue. -/
def Done (me : Nat) (h : Handle) (around : Surroundings) (q : Shared) (a : PriorityQueue)
    (number : Nat) (errand : Errand) : Prop :=
  ∃ n last t, n ≤ 8 ∧
    Call.Passes me h around n q ⟨(errand.job h.sizing).request, (errand.job h.sizing).buffer, .arriving⟩ last ∧
    Call.Settles h (errand.job h.sizing).request (a.call h.sizing number errand).2.ideal t
      (a.call h.sizing number errand).1.answer last ∧
    errand.yields ⟨(a.call h.sizing number errand).1.answer, t.buffer⟩ =
      (a.call h.sizing number errand).1 ∧
    t.nonblocking = (a.call h.sizing number errand).2.nonblocking number ∧ t.delivery = none

/-- An errand that its first turn ends is done if the turn does what the abstract queue does. -/
theorem Ready.done_of_first {errand : Errand} (hready : errand.Ready h around q a number)
    (hfits : (errand.job h.sizing).request.Fits) {t : Turn}
    (hfirst : a.ideal.first h around.herald (errand.job h.sizing).buffer (errand.job h.sizing).request =
      (t, (a.call h.sizing number errand).2.ideal))
    (hverdict : ∃ wake, t.verdict = .finish (a.call h.sizing number errand).1.answer wake)
    (hyields : ∀ outcome, errand.yields outcome = outcome)
    (hbuffer : t.buffer = (a.call h.sizing number errand).1.buffer)
    (hmode : t.nonblocking = (a.call h.sizing number errand).2.nonblocking number)
    (hdelivery : t.delivery = none) : errand.Done me h around q a number := by
  obtain ⟨wake, hverdict⟩ := hverdict
  obtain ⟨last, hpasses, hsettles, -⟩ := Call.Passes.of_first_finish hready.valid hready.fits hfits
    hready.not_cancelled (refusal_eq_none hready.admissible) hready.holder_eq hready.refines hfirst
    hverdict
  exact ⟨4, last, t, by decide, hpasses, hsettles, by rw [hyields, hbuffer], hmode, hdelivery⟩

/-- An errand that cannot do what it is for is done if its first turn refuses it through a
handle that does not block, and has it wait through one that does. -/
theorem Ready.done_of_excuse {errand : Errand} (hready : errand.Ready h around q a number)
    (hfits : (errand.job h.sizing).request.Fits)
    (hyields : ∀ outcome, errand.yields outcome = outcome)
    (hcall : a.call h.sizing number errand =
      (⟨.error (a.excuse number), (errand.job h.sizing).buffer⟩, a))
    (hrefuse : h.nonblocking = true →
      a.ideal.first h around.herald (errand.job h.sizing).buffer (errand.job h.sizing).request =
        ({ verdict := .finish (.error .wouldBlock) none, buffer := (errand.job h.sizing).buffer,
           nonblocking := h.nonblocking }, a.ideal))
    {b : Ideal} (hwait : h.nonblocking = false →
      a.ideal.first h around.herald (errand.job h.sizing).buffer (errand.job h.sizing).request =
        ({ verdict := .wait, buffer := (errand.job h.sizing).buffer, nonblocking := h.nonblocking }, b))
    (hquit : b.giveUp h (errand.job h.sizing).buffer .timedOut (errand.job h.sizing).request =
      ({ verdict := .finish (.error .timedOut) none, buffer := (errand.job h.sizing).buffer,
         nonblocking := h.nonblocking }, a.ideal))
    (hlate : a.nonblocking number = true ∨ ∃ moment,
      (errand.job h.sizing).request.deadline = some moment ∧ moment ≤ around.now) :
    errand.Done me h around q a number := by
  cases hmode : a.nonblocking number with
  | true =>
    have hexcuse : a.excuse number = .wouldBlock := if_pos hmode
    refine hready.done_of_first hfits
      (by rw [hcall]; exact hrefuse (hready.nonblocking_eq.trans hmode))
      ⟨none, by rw [hcall, hexcuse]⟩ hyields (by rw [hcall]) ?_ rfl
    rw [hcall]
    exact hready.nonblocking_eq
  | false =>
    have hexcuse : a.excuse number = .timedOut := if_neg (by simp [hmode])
    obtain ⟨moment, hdeadline, hpast⟩ := hlate.resolve_left (by simp [hmode])
    have hlate : Call.late around.now ⟨(errand.job h.sizing).request, (errand.job h.sizing).buffer,
        .waitClock around.interruptions⟩ = true := by
      rw [Call.late, hdeadline]
      exact decide_eq_true hpast
    obtain ⟨last, hpasses, hsettles⟩ := Call.Passes.of_first_wait hready.valid hready.fits hfits
      hready.not_cancelled (refusal_eq_none hready.admissible) hready.holder_eq hready.refines
      (hwait (hready.nonblocking_eq.trans hmode)) rfl rfl rfl rfl hlate hquit rfl
    rw [Done, hcall, hexcuse, ← hready.nonblocking_eq]
    exact ⟨8, last, _, Nat.le_refl _, hpasses, hsettles, hyields _, rfl, rfl⟩

theorem Ready.done_send {m : Message} {deadline : Option Nat}
    (hready : (send m deadline).Ready h around q a number) :
    (send m deadline).Done me h around q a number := by
  have hfirst : a.ideal.first h around.herald .empty (.send m.bytes m.priority deadline) =
      ({ verdict := (a.ideal.trySend h m).1, buffer := .empty, nonblocking := h.nonblocking },
        (a.ideal.trySend h m).2) := by
    rw [Ideal.first, Ideal.fired_of_none rfl, Ideal.due_of_none rfl]
    rfl
  by_cases hroom : a.messages.length < h.sizing.capacity
  · rw [Ideal.trySend, if_pos (by exact hroom)] at hfirst
    have hcall : a.call h.sizing number (.send m deadline) =
        (⟨.ok .sent, .empty⟩, { a with messages := Backlog.insert m a.messages }) := if_pos hroom
    refine hready.done_of_first trivial (by rw [hcall]; exact hfirst) ⟨_, by rw [hcall]⟩
      (fun _ => rfl) (by rw [hcall]) ?_ rfl
    rw [hcall]
    exact hready.nonblocking_eq
  · rw [Ideal.trySend, if_neg (by exact hroom)] at hfirst
    refine hready.done_of_excuse trivial (fun _ => rfl) (if_neg hroom) (fun hmode => ?_)
      (fun hmode => ?_) rfl hready.prompt
    · rw [if_pos hmode] at hfirst
      exact hfirst
    · rw [if_neg (by simp [hmode])] at hfirst
      exact hfirst

theorem Ready.done_receive {buffer : ByteArray} {deadline : Option Nat}
    (hready : (receive buffer deadline).Ready h around q a number) :
    (receive buffer deadline).Done me h around q a number := by
  cases hmessages : a.messages with
  | cons m rest =>
    have hcall : a.call h.sizing number (.receive buffer deadline) =
        (⟨.ok (.received m.bytes.size m.priority),
          m.bytes ++ buffer.extract m.bytes.size buffer.size⟩, { a with messages := rest }) := by
      rw [PriorityQueue.call, hmessages]
    have hfirst : a.ideal.first h around.herald buffer (.receive deadline) =
        a.ideal.receive h buffer m rest := by
      rw [Ideal.first, PriorityQueue.ideal, hmessages]
    refine hready.done_of_first trivial (by rw [hcall]; exact hfirst) ⟨_, by rw [hcall]⟩
      (fun _ => rfl) ?_ ?_ rfl
    · rw [hcall]
      rfl
    · rw [hcall]
      exact hready.nonblocking_eq
  | nil =>
    have hcall : a.call h.sizing number (.receive buffer deadline) =
        (⟨.error (a.excuse number), buffer⟩, a) := by
      rw [PriorityQueue.call, hmessages]
    -- The receiver is counted as waiting until it gives up.
    refine hready.done_of_excuse trivial (fun _ => rfl) hcall (fun hmode => ?_)
      (b := { a.ideal with waiting := 1 }) (fun hmode => ?_) rfl hready.prompt
    · change a.ideal.first h around.herald buffer (.receive deadline) = _
      rw [Ideal.first, PriorityQueue.ideal, hmessages]
      exact if_pos hmode
    · change a.ideal.first h around.herald buffer (.receive deadline) = _
      rw [Ideal.first, PriorityQueue.ideal, hmessages]
      exact if_neg (by simp [hmode])

/-- A receive into a new buffer is one into any buffer that is trimmed afterwards. -/
theorem Ready.done_receiveNew (hready : receiveNew.Ready h around q a number) :
    receiveNew.Done me h around q a number := by
  let buffer := Region.zeroBytes h.sizing.messageSize
  have hready' : (receive buffer none).Ready h around q a number :=
    ⟨hready.valid, hready.fits, hready.not_cancelled, hready.holder_eq, hready.refines,
      hready.nonblocking_eq, Nat.le_of_eq (Region.size_zeroBytes _).symm, Or.inl hready.prompt⟩
  obtain ⟨n, last, t, hn, hpasses, hsettles, hbuffer, hmode, hdelivery⟩ :
    (receive buffer none).Done me h around q a number := hready'.done_receive
  rw [Done, a.call_receiveNew h.sizing number buffer none, Outcome.answer_trimmed]
  exact ⟨n, last, t, hn, hpasses, hsettles, congrArg Outcome.trimmed hbuffer, hmode, hdelivery⟩

theorem Ready.done {errand : Errand} (hready : errand.Ready h around q a number) :
    errand.Done me h around q a number := by
  have hattributes : a.ideal.attributes h = a.attributes h.sizing number := by
    rw [Ideal.attributes, PriorityQueue.attributes, hready.nonblocking_eq]
    rfl
  cases errand with
  | send m deadline => exact hready.done_send
  | receive buffer deadline => exact hready.done_receive
  | receiveNew => exact hready.done_receiveNew
  | attributes =>
    refine hready.done_of_first trivial rfl ⟨none, ?_⟩ (fun _ => rfl) rfl hready.nonblocking_eq rfl
    exact congrArg (fun x => Verdict.finish (.ok (.attributes x)) none) hattributes
  | setNonblocking on =>
    refine hready.done_of_first trivial rfl ⟨none, ?_⟩ (fun _ => rfl) rfl ?_ rfl
    · exact congrArg (fun x => Verdict.finish (.ok (.attributes x)) none) hattributes
    · exact (Function.update_self number on a.nonblocking).symm

end Errand

end MappedQueue
