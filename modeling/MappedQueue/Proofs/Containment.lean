import MappedQueue.Proofs.Calls
import MappedQueue.Proofs.Damage

/-!
# Calls on damaged queues

A transfer that need not wait comes to its end on a queue whose bytes are damaged: it has an
answer, or the process ends with a report. On the way it touches nothing but the state record and
the slots, and its answer agrees with the number of messages before and after it.
-/

namespace MappedQueue

open Access
open Layout (stateOffset headerSize)
open Region (Counts)

variable {h : Handle} {r : Region} {q : Shared} {c : Call} {F : Region → Prop}
  {P : Turn → Region → Prop} {size room queued waiting waited me pick bound n k : Nat}
  {request : Request} {buffer message : ByteArray} {herald : Herald}

/-- Whether an answer accounts for the number of messages before and after a call whose buffer
has `room` bytes. -/
def Answer.Accounts (s : Sizing) (room before after : Nat) : Answer → Prop
  | .ok .sent => before < s.capacity ∧ after = before + 1
  | .ok (.received length _) => before = after + 1 ∧ length ≤ s.messageSize ∧ length ≤ room
  | .ok _ => False
  | .error _ => after = before

/-- How a turn ends that found `queued` messages: `waiting` receivers are counted when the call
is over, and `waited` when it has to wait. -/
def Verdict.Accounts (h : Handle) (size room queued waiting waited : Nat) (r : Region) :
    Verdict → Prop
  | .finish answer _ => ∃ after, r.Counts size after waiting ∧
      answer.Accounts h.sizing room queued after
  | .wait => h.nonblocking = false ∧ r.Counts size queued waited

/-- What a turn leaves behind that found `queued` messages. -/
structure Turn.Accounts (h : Handle) (size room queued waiting waited : Nat) (t : Turn)
    (r : Region) : Prop where
  nonblocking_eq : t.nonblocking = h.nonblocking
  buffer_size : t.buffer.size = room
  verdict : t.verdict.Accounts h size room queued waiting waited r

/-- How many receivers are counted while a call waits. -/
def Request.counted (waiting : Nat) : Request → Nat
  | .receive _ => waiting + 1
  | _ => waiting

namespace Turn

theorem size_overwrite (hfit : message.size ≤ buffer.size) :
    (overwrite buffer message).size = buffer.size := by
  rw [overwrite, ByteArray.size_append, ByteArray.size_extract]
  omega

theorem keeps_trySend (hs : h.sizing.Valid) (hsize : headerSize ≤ size)
    (hc : r.Counts size queued waiting) (hm : message.size ≤ h.sizing.messageSize)
    (priority room : Nat) :
    Keeps h.sizing (2 * h.sizing.capacity + 14) (trySend h message priority) r
      (Counts size queued waiting) fun verdict r' =>
        verdict.Accounts h size room queued waiting waiting r' := by
  unfold trySend
  refine keeps_get_bind (Sizing.permits_state (by decide) (by decide)) ?_
  rw [hc.queued_eq]
  split
  · rename_i hroom
    exact (keeps_enqueue hs hsize hc hroom hm priority).map
      fun first r' hc' => ⟨queued + 1, hc', hroom, rfl⟩
  · split
    · exact keeps_pure ⟨queued, hc, rfl⟩
    · rename_i hblocking
      exact keeps_pure ⟨Bool.eq_false_iff.mpr hblocking, hc⟩

theorem keeps_receive (hsize : headerSize ≤ size) (hc : r.Counts size queued waiting)
    (hqueued : queued ≠ 0) (hbuffer : h.sizing.messageSize ≤ buffer.size) :
    Keeps h.sizing 11 (receive h buffer) r (Counts size queued waiting)
      (Accounts h size buffer.size queued waiting waited) := by
  obtain ⟨rest, rfl⟩ := Nat.exists_eq_succ_of_ne_zero hqueued
  unfold receive
  refine (keeps_dequeue hsize hc).map ?_
  rintro taken r' ⟨hmessage, hc'⟩
  have hfit := Nat.le_trans hmessage hbuffer
  exact ⟨rfl, size_overwrite hfit, rest, hc', rfl, hmessage, hfit⟩

theorem keeps_first_send (hs : h.sizing.Valid) (hsize : headerSize ≤ size)
    (hc : r.Counts size queued waiting) (hm : message.size ≤ h.sizing.messageSize)
    (priority : Nat) (deadline : Option Nat) :
    Keeps h.sizing (2 * h.sizing.capacity + 21)
      (first h herald buffer (.send message priority deadline)) r (Counts size queued waiting)
      (Accounts h size buffer.size queued waiting waiting) := by
  have hkeeps : Keeps h.sizing (6 + (2 * h.sizing.capacity + 14) + 1)
      (first h herald buffer (.send message priority deadline)) r (Counts size queued waiting)
      (Accounts h size buffer.size queued waiting waiting) := by
    unfold first
    refine keeps_get_bind (Sizing.permits_state (by decide) (by decide)) ?_
    split
    · refine (keeps_take hc).bind fun delivery r₁ hc₁ => ?_
      exact (keeps_trySend hs hsize hc₁ hm priority buffer.size).map
        fun verdict r₂ hverdict => ⟨rfl, rfl, hverdict⟩
    · refine Keeps.mono ?_ (Nat.le_add_left _ _) (fun _ h => h) fun _ _ h => h
      exact (keeps_trySend hs hsize hc hm priority buffer.size).map
        fun verdict r₁ hverdict => ⟨rfl, rfl, hverdict⟩
  exact hkeeps.mono (by omega) (fun _ h => h) fun _ _ h => h

theorem keeps_first_receive (hsize : headerSize ≤ size) (hc : r.Counts size queued waiting)
    (hwaiting : waiting + 1 < 2 ^ 32) (hbuffer : h.sizing.messageSize ≤ buffer.size)
    (deadline : Option Nat) :
    Keeps h.sizing 12 (first h herald buffer (.receive deadline)) r (Counts size queued waiting)
      (Accounts h size buffer.size queued waiting (waiting + 1)) := by
  unfold first
  refine keeps_get_bind (Sizing.permits_state (by decide) (by decide)) ?_
  rw [hc.queued_eq]
  split
  · split
    · exact keeps_pure ⟨rfl, rfl, queued, hc, rfl⟩
    · rename_i hblocking
      refine keeps_get_bind (Sizing.permits_state (by decide) (by decide)) ?_
      refine keeps_set_bind (Sizing.permits_state (by decide) (by decide)) ?_
      rw [hc.waiting_eq]
      exact keeps_pure
        ⟨rfl, rfl, Bool.eq_false_iff.mpr hblocking, hc.write_waiting hsize hwaiting⟩
  · rename_i hqueued
    exact keeps_receive hsize hc hqueued hbuffer

/-- The first turn of a transfer whose arguments are accepted. -/
theorem keeps_first (hs : h.sizing.Valid) (hsize : headerSize ≤ size)
    (hc : r.Counts size queued waiting) (hwaiting : waiting + 1 < 2 ^ 32)
    (htransfers : request.transfers = true)
    (haccepted : Call.refusal? h buffer request = none) :
    Keeps h.sizing (2 * h.sizing.capacity + 21) (first h herald buffer request) r
      (Counts size queued waiting)
      (Accounts h size buffer.size queued waiting (request.counted waiting)) := by
  cases request with
  | send message priority deadline =>
    have hm : message.size ≤ h.sizing.messageSize := by
      by_contra hlong
      simp only [Call.refusal?, if_pos (Nat.lt_of_not_le hlong)] at haccepted
      split at haccepted <;> cases haccepted
    exact keeps_first_send hs hsize hc hm priority deadline
  | receive deadline =>
    have hbuffer : h.sizing.messageSize ≤ buffer.size := by
      by_contra hshort
      simp only [Call.refusal?, if_pos (Nat.lt_of_not_le hshort)] at haccepted
      cases haccepted
    refine (keeps_first_receive hsize hc hwaiting hbuffer deadline).mono ?_ (fun _ h => h)
      fun _ _ h => h
    omega
  | attributes => cases htransfers
  | setNonblocking => cases htransfers
  | notify => cases htransfers
  | linger => cases htransfers

/-- A transfer that gives up is not counted any more. -/
theorem keeps_giveUp (hsize : headerSize ≤ size)
    (hc : r.Counts size queued (request.counted waiting)) (hwaiting : waiting < 2 ^ 32)
    (htransfers : request.transfers = true) (setback : Setback) :
    Keeps h.sizing 2 (giveUp h buffer setback request) r F fun t r' =>
      t.Accounts h size buffer.size queued waiting waited r' ∧ t.verdict ≠ .wait := by
  cases request with
  | receive deadline =>
    unfold giveUp
    refine Keeps.map (P := fun _ => Counts size queued waiting) ?_
      fun _ r' hc' => ⟨⟨rfl, rfl, queued, hc', rfl⟩, nofun⟩
    unfold stopWaiting
    refine keeps_get_bind (Sizing.permits_state (by decide) (by decide)) ?_
    refine keeps_set (Sizing.permits_state (by decide) (by decide)) ?_
    rw [hc.waiting_eq]
    exact hc.write_waiting hsize hwaiting
  | send => exact keeps_pure ⟨⟨rfl, rfl, queued, hc, rfl⟩, nofun⟩
  | attributes => cases htransfers
  | setNonblocking => cases htransfers
  | notify => cases htransfers
  | linger => cases htransfers

end Turn

namespace Call

/-- The accesses to the state and the slots that the next step of a call makes. Without the lock
a call looks at the tag only, which is neither. -/
def touched (h : Handle) (herald : Herald) (q : Shared) (c : Call) : List (Nat × Nat) :=
  match c.program h herald with
  | some turn => turn.touched q.region
  | none => []

/-- Whether a call need not wait at this moment. -/
def Prompt (h : Handle) (around : Surroundings) (c : Call) : Prop :=
  h.nonblocking = true ∨ c.late around.now = true

/-- A call that is left alone and need not wait comes within some number of steps to an end at
which `Q` holds, whatever it sees around itself. Each step makes at most `bound` accesses, all of
them permitted. -/
def Ends (me bound : Nat) (h : Handle) (Q : Shared → Call → Prop) : Nat → Shared → Call → Prop
  | 0, q, c => Q q c
  | n + 1, q, c => Q q c ∨ ∀ around pick, c.Prompt h around →
    (∀ t ∈ c.touched h around.herald q, h.sizing.Permits t.1 t.2) ∧
      (c.touched h around.herald q).length ≤ bound ∧
      ∃ next, c.step me h around pick q = some next ∧ next.nonblocking = h.nonblocking ∧
        Ends me bound h Q n next.shared next.call

/-- How a call over damaged bytes is over that found `queued` messages and `waiting` receivers:
the process ends with a report, and the counters are as they were, or there is an answer that
accounts for the messages, and nobody is counted who does not wait. -/
def Over (s : Sizing) (size room queued waiting : Nat) (q : Shared) (c : Call) : Prop :=
  (c.Broken ∧ q.region.Counts size queued waiting) ∨
    ∃ (answer : Answer) (after : Nat), c.point = .answered answer ∧ c.buffer.size = room ∧
      q.region.Counts size after waiting ∧ answer.Accounts s room queued after

variable {Q : Shared → Call → Prop}

theorem Ends.over (hQ : Q q c) : Ends me bound h Q n q c := by
  cases n with
  | zero => exact hQ
  | succ n => exact Or.inl hQ

theorem Ends.mono (hnk : n ≤ k) (he : Ends me bound h Q n q c) : Ends me bound h Q k q c := by
  induction n generalizing k q c with
  | zero => exact .over he
  | succ n ih =>
    obtain ⟨k, rfl⟩ := Nat.exists_eq_add_of_le' (Nat.lt_of_lt_of_le (Nat.succ_pos n) hnk)
    rcases he with hQ | hstep
    · exact .over hQ
    · refine Or.inr fun around pick hprompt => ?_
      obtain ⟨hpermits, hlength, next, hnext, hmode, hrest⟩ := hstep around pick hprompt
      exact ⟨hpermits, hlength, next, hnext, hmode, ih (Nat.le_of_succ_le_succ hnk) hrest⟩

/-- A step that takes no turn touches nothing. -/
theorem Ends.of_quiet (hprogram : ∀ herald, c.program h herald = none)
    (hstep : ∀ around pick, c.Prompt h around → ∃ next, c.step me h around pick q = some next ∧
      next.nonblocking = h.nonblocking ∧ Ends me bound h Q n next.shared next.call) :
    Ends me bound h Q (n + 1) q c := by
  refine Or.inr fun around pick hprompt => ?_
  have hnone : c.touched h around.herald q = [] := by rw [touched, hprogram]
  rw [hnone]
  exact ⟨fun _ ht => absurd ht List.not_mem_nil, Nat.zero_le _, hstep around pick hprompt⟩

/-- A turn of a call comes to a fault, or leaves behind what its program yields. -/
theorem takeTurn_of_keeps {turn : Access Turn} {s : Sizing} (hk : Keeps s bound turn q.region F P)
    {next : Advance} (hnext : c.takeTurn h pick q turn = next) :
    (next.call.Broken ∧ F next.shared.region ∧ next.nonblocking = h.nonblocking) ∨
      ∃ t, P t next.shared.region ∧ next.nonblocking = t.nonblocking ∧
        next.call = { c with point := t.point, buffer := t.buffer } := by
  cases hrun : turn.run q.region with
  | mk result r =>
    cases result with
    | error fault =>
      left
      subst hnext
      simp only [takeTurn, hrun]
      exact ⟨⟨fault, rfl⟩, hk.faulted fault r hrun, trivial⟩
    | ok t =>
      right
      obtain ⟨hcall, hregion, hmode, -⟩ := takeTurn_of_ok hrun hnext
      exact ⟨t, hregion ▸ hk.outcome t r hrun, hmode, hcall⟩

/-- A step that takes a turn touches what the program of the turn touches. -/
theorem Ends.of_turn {turn : Herald → Access Turn}
    (hprogram : ∀ herald, c.program h herald = some (turn herald))
    (hkeeps : ∀ herald, Keeps h.sizing bound (turn herald) q.region (Counts size queued waiting) P)
    (hend : ∀ t q', P t q'.region → t.nonblocking = h.nonblocking ∧
      Ends me bound h (Over h.sizing size room queued waiting) n q'
        { c with point := t.point, buffer := t.buffer }) :
    Ends me bound h (Over h.sizing size room queued waiting) (n + 1) q c := by
  refine Or.inr fun around pick _ => ?_
  have hk := hkeeps around.herald
  have htouched : c.touched h around.herald q = (turn around.herald).touched q.region := by
    rw [touched, hprogram]
  rw [htouched, step_of_program (hprogram _)]
  refine ⟨hk.permits, hk.length_le, _, rfl, ?_⟩
  have htaken : c.takeTurn h pick q (turn around.herald) = _ := rfl
  rcases takeTurn_of_keeps hk htaken with ⟨hbroken, hcounts, hmode⟩ | ⟨t, ht, hmode, hcall⟩
  · exact ⟨hmode, .over (Or.inl ⟨hbroken, hcounts⟩)⟩
  · obtain ⟨hsame, hrest⟩ := hend t _ ht
    rw [hcall]
    exact ⟨hmode.trans hsame, hrest⟩

/-- A turn that does not end in a wait ends the call. -/
theorem over_of_turn {t : Turn} (ht : t.Accounts h size room queued waiting waited q.region)
    (hverdict : t.verdict ≠ .wait) :
    Over h.sizing size room queued waiting q { c with point := t.point, buffer := t.buffer } := by
  obtain ⟨-, hroom, haccounts⟩ := ht
  cases hv : t.verdict with
  | wait => exact absurd hv hverdict
  | finish answer wake =>
    rw [hv] at haccounts
    obtain ⟨after, hcounts, hanswer⟩ := haccounts
    exact Or.inr ⟨answer, after, by simp only [Turn.point, hv], hroom, hcounts, hanswer⟩

/-- What holds of a transfer that has the lock and would have to wait. -/
structure Pending (h : Handle) (size room queued waiting : Nat) (q : Shared) (c : Call) :
    Prop where
  transfers : c.request.transfers = true
  blocking : h.nonblocking = false
  buffer_size : c.buffer.size = room
  counts : q.region.Counts size queued (c.request.counted waiting)

namespace Pending

variable (hp : Pending h size room queued waiting q c) (hsize : headerSize ≤ size)
  (hwaiting : waiting + 1 < 2 ^ 32)
include hp hsize hwaiting

theorem quitting (setback : Setback) :
    Ends me (2 * h.sizing.capacity + 21) h (Over h.sizing size room queued waiting) 1 q
      { c with point := .quitting setback } := by
  refine .of_turn (P := fun t r => t.Accounts h size room queued waiting waiting r ∧
    t.verdict ≠ .wait) (fun _ => rfl) (fun _ => ?_) ?_
  · have hkeeps : Keeps h.sizing 2 (Turn.giveUp h c.buffer setback c.request) q.region
        (Counts size queued waiting) fun t r =>
          t.Accounts h size c.buffer.size queued waiting waiting r ∧ t.verdict ≠ .wait :=
      Turn.keeps_giveUp hsize hp.counts (Nat.lt_of_succ_lt hwaiting) hp.transfers setback
    rw [hp.buffer_size] at hkeeps
    exact hkeeps.mono (by omega) (fun _ h => h) fun _ _ h => h
  · rintro t q' ⟨ht, hverdict⟩
    exact ⟨ht.nonblocking_eq, over_of_turn ht hverdict⟩

theorem clock (seen : Nat) :
    Ends me (2 * h.sizing.capacity + 21) h (Over h.sizing size room queued waiting) 2 q
      { c with point := .waitClock seen } := by
  refine .of_quiet (fun _ => rfl) fun around pick hprompt => ?_
  have hlate : c.late around.now = true :=
    hprompt.resolve_left fun hmode => absurd hmode (by rw [hp.blocking]; decide)
  exact ⟨_, if_pos hlate, rfl, hp.quitting hsize hwaiting .timedOut⟩

theorem interrupted :
    Ends me (2 * h.sizing.capacity + 21) h (Over h.sizing size room queued waiting) 3 q
      { c with point := .waitInterrupted } := by
  refine .of_quiet (fun _ => rfl) fun around pick _ => ?_
  exact ⟨_, rfl, rfl, hp.clock hsize hwaiting around.interruptions⟩

theorem cancelled :
    Ends me (2 * h.sizing.capacity + 21) h (Over h.sizing size room queued waiting) 4 q
      { c with point := .waitCancelled } := by
  refine .of_quiet (fun _ => rfl) fun around pick _ => ?_
  by_cases hcancelled : around.cancelled = true
  · exact ⟨_, if_pos hcancelled, rfl, (hp.quitting hsize hwaiting .cancelled).mono (by decide)⟩
  · exact ⟨_, if_neg hcancelled, rfl, hp.interrupted hsize hwaiting⟩

end Pending

section Entering

variable (hs : h.sizing.Valid) (hsize : headerSize ≤ size)
  (hc : q.region.Counts size queued waiting) (hwaiting : waiting + 1 < 2 ^ 32)
  (htransfers : c.request.transfers = true)
include hs hsize hc hwaiting htransfers

theorem ends_inside (haccepted : refusal? h c.buffer c.request = none) :
    Ends me (2 * h.sizing.capacity + 21) h (Over h.sizing size c.buffer.size queued waiting) 5 q
      { c with point := .inside } := by
  refine .of_turn (fun _ => rfl)
    (fun herald => Turn.keeps_first hs hsize hc hwaiting htransfers haccepted) fun t q' ht => ?_
  refine ⟨ht.nonblocking_eq, ?_⟩
  cases hverdict : t.verdict with
  | finish answer wake => exact .over (over_of_turn ht (by rw [hverdict]; nofun))
  | wait =>
    obtain ⟨-, hroom, haccounts⟩ := ht
    rw [hverdict] at haccounts
    have hp : Pending h size c.buffer.size queued waiting q' { c with buffer := t.buffer } :=
      ⟨htransfers, haccounts.1, hroom, haccounts.2⟩
    simp only [Turn.point, hverdict]
    exact hp.cancelled hsize hwaiting

theorem ends_knocking (haccepted : refusal? h c.buffer c.request = none)
    (hfree : q.holder = none) :
    Ends me (2 * h.sizing.capacity + 21) h (Over h.sizing size c.buffer.size queued waiting) 7 q
      { c with point := .knocking } := by
  refine .of_quiet (fun _ => rfl) fun around pick _ => ?_
  by_cases hbad : (c.request.needsTag && !q.tagged) = true
  · refine ⟨_, if_pos hbad, rfl, .over (Or.inr ?_)⟩
    exact ⟨_, queued, rfl, rfl, hc, rfl⟩
  · refine ⟨_, if_neg hbad, rfl, ?_⟩
    refine .of_quiet (fun _ => rfl) fun around' pick' _ => ?_
    have hopen : q.holder.isNone = true := by rw [hfree]; rfl
    exact ⟨_, if_pos hopen, rfl,
      ends_inside (q := q.seize me) hs hsize hc hwaiting htransfers haccepted⟩

/-- A transfer that arrives at a free lock. -/
theorem ends_arriving (hpoint : c.point = .arriving) (hfree : q.holder = none) :
    Ends me (2 * h.sizing.capacity + 21) h (Over h.sizing size c.buffer.size queued waiting) 8 q
      c := by
  refine .of_quiet (fun herald => by rw [program, hpoint]) fun around pick _ => ?_
  have hstep : c.step me h around pick q = some
      { call := { c with point := c.arrive h around q }, shared := q,
        nonblocking := h.nonblocking } := by
    unfold step
    simp only [hpoint]
  refine ⟨_, hstep, rfl, ?_⟩
  rcases c.arrive_cases h around q with ⟨hknocking, haccepted⟩ | ⟨error, herror, -⟩
  · simp only [hknocking]
    exact ends_knocking hs hsize hc hwaiting htransfers haccepted hfree
  · refine .over (Or.inr ⟨.error error, queued, ?_, rfl, hc, rfl⟩)
    simp only [herror]

end Entering

end Call

/-- Over any bytes whatever, the operations on the two lists and the transfers that need not wait
come to their end, with a result or with a report. All they touch is the state record, or the
header and the bytes for the message of one slot, behind the lock and inside the file. The lists
leave the counters alone, also when they end with a report, and a transfer accounts for them. -/
theorem damage_contained (h : Handle) (q : Shared) {total : Nat}
    (htotal : h.sizing.fileSize? = some total) (hsize : total ≤ q.region.size)
    (hwaiting : q.region.read .waiting + 1 < 2 ^ 32) :
    let s := h.sizing
    let r := q.region
    let same := Counts r.size (r.read .queued) (r.read .waiting)
    (∀ offset count, s.Permits offset count → stateOffset ≤ offset ∧ offset + count ≤ total) ∧
      Keeps s 3 (FreeList.allocate s) r same (fun slot r' => s.isSlot slot = true ∧ same r') ∧
      (∀ slot, Keeps s 3 (FreeList.release s slot) r same fun _ => same) ∧
      (∀ slot priority, Keeps s (2 * s.capacity + 5) (MessageList.insert s slot priority) r same
        fun _ => same) ∧
      Keeps s 3 (MessageList.popHead s) r same (fun slot r' => s.isSlot slot = true ∧ same r') ∧
      ∀ me request buffer, request.transfers = true → q.holder = none →
        Call.Ends me (2 * s.capacity + 21) h
          (Call.Over s r.size buffer.size (r.read .queued) (r.read .waiting)) 8 q
          { request, buffer } := by
  intro s r same
  obtain ⟨hs, rfl⟩ := Sizing.fileSize?_eq_some.mp htotal
  have hc : same r := ⟨rfl, rfl, rfl⟩
  have hheader : headerSize ≤ r.size := Nat.le_trans (Nat.le_add_right _ _) hsize
  refine ⟨fun _ _ hp => hp.inside, FreeList.keeps_allocate hc, FreeList.keeps_release hc,
    MessageList.keeps_insert hc, MessageList.keeps_popHead hc, ?_⟩
  intro me request buffer htransfers hfree
  exact Call.ends_arriving (c := { request, buffer }) hs hheader hc hwaiting htransfers rfl hfree

/-- A slot that is its own successor, first on both lists. -/
theorem circle_contained : ∃ q : Shared, Sizing.fileSize? ⟨2, 4⟩ = some 248 ∧
    248 ≤ q.region.size ∧ q.region.read .waiting + 1 < 2 ^ 32 ∧ q.tagged = true ∧
    q.region.read .head = 200 ∧ q.region.read .free = 200 ∧ q.region.read (.next 200) = 200 ∧
    Keeps ⟨2, 4⟩ 9 (MessageList.insert ⟨2, 4⟩ 224 3) q.region (Counts 248 1 0)
      (fun _ => Counts 248 1 0) ∧
    Call.Ends 0 25 ⟨⟨2, 4⟩, 1, true⟩ (Call.Over ⟨2, 4⟩ 248 4 1 0) 8 q
      { request := .receive none, buffer := ⟨#[0, 0, 0, 0]⟩ } := by
  let r := ((((Region.zeros 248).write .tag Layout.validTag).write .queued 1).write .head 200
    |>.write .free 200).write (.next 200) 200
  have htotal : Sizing.fileSize? ⟨2, 4⟩ = some 248 := by decide
  obtain ⟨hsize, hwaiting, hqueued, htag, hlinks⟩ : r.size = 248 ∧ r.read .waiting = 0 ∧
      r.read .queued = 1 ∧ r.read .tag = Layout.validTag ∧ r.read .head = 200 ∧
      r.read .free = 200 ∧ r.read (.next 200) = 200 := by decide +kernel
  clear_value r
  have hfits : 248 ≤ r.size := Nat.le_of_eq hsize.symm
  have hroom : r.read .waiting + 1 < 2 ^ 32 := by rw [hwaiting]; decide
  obtain ⟨-, -, -, hinsert, -, hcalls⟩ :=
    damage_contained ⟨⟨2, 4⟩, 1, true⟩ { region := r } htotal hfits hroom
  have hlist := hinsert 224 3
  have hcall := hcalls 0 (.receive none) ⟨#[0, 0, 0, 0]⟩ rfl rfl
  dsimp only at hlist hcall
  rw [hwaiting, hqueued, hsize] at hlist hcall
  exact ⟨{ region := r }, htotal, hfits, hroom, decide_eq_true htag, hlinks.1, hlinks.2.1,
    hlinks.2.2, hlist, hcall⟩

end MappedQueue
