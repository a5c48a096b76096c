import MappedQueue.Proofs.Containment
import MappedQueue.Proofs.Moves
import MappedQueue.Proofs.Passes

/-!
# Calls that end with an error

A call that ends with an error leaves no trace, whatever the bytes of the queue are: it has sent,
received, registered and delivered nothing, and a receive that has counted itself among the
waiting receivers has taken itself out again. What can be refused without the lock is refused
before the call asks for it, and what counts among the refusals is their order.
-/

namespace MappedQueue

open Access
open Layout (headerSize)

variable {h h' : Handle} {r r' : Region} {q q' : Shared} {c c' : Call} {t : Turn} {me pick : Nat}
  {request : Request} {buffer message : ByteArray} {herald : Herald} {around : Surroundings}
  {next : Advance} {error : SystemError}

/-- The region while a call waits: a receive has counted itself. -/
def Request.marked (r : Region) : Request → Region
  | .receive _ => r.write .waiting (r.read .waiting + 1)
  | _ => r

namespace Turn

/-- The turn ends its call with a success. -/
def Succeeds (t : Turn) : Prop := ∃ reply wake, t.verdict = .finish (.ok reply) wake

/-- What a turn leaves behind that does not succeed: the region `marked` if the call waits, and the
region `r` if it ends with an error, and everything else as it was. -/
structure Spares (h : Handle) (buffer : ByteArray) (r marked : Region) (t : Turn) (r' : Region) :
    Prop where
  nonblocking_eq : t.nonblocking = h.nonblocking
  buffer_eq : t.buffer = buffer
  delivery_eq : t.delivery = none
  region_eq : r' = if t.point.waits then marked else r

theorem run_trySend_cases {priority : Nat} {verdict : Verdict}
    (hrun : (trySend h message priority).run r = (.ok verdict, r')) :
    (∃ wake, verdict = .finish (.ok .sent) wake) ∨ h.sizing.capacity ≤ r.read .queued ∧ r' = r := by
  rw [trySend, run_get_bind] at hrun
  split at hrun
  · obtain ⟨first, r₁, -, hdone⟩ := run_bind_eq_ok.mp hrun
    cases hdone
    exact Or.inl ⟨_, rfl⟩
  · rename_i hfull
    refine Or.inr ⟨Nat.le_of_not_lt hfull, ?_⟩
    split at hrun <;> cases hrun <;> rfl

theorem succeeds_of_receive (hrun : (receive h buffer).run r = (.ok t, r')) : t.Succeeds := by
  obtain ⟨taken, r₁, -, hdone⟩ := run_bind_eq_ok.mp hrun
  cases hdone
  exact ⟨_, _, rfl⟩

/-- A send that finds the queue full changes nothing. -/
theorem spares_of_full {verdict : Verdict} :
    Spares h buffer r r ⟨verdict, buffer, h.nonblocking, none⟩ r :=
  ⟨rfl, rfl, rfl, (ite_self _).symm⟩

theorem spares_of_error {error : Error} {marked : Region} :
    Spares h buffer r marked ⟨.finish (.error error) none, buffer, h.nonblocking, none⟩ r :=
  ⟨rfl, rfl, rfl, rfl⟩

/-- A send that takes a registration along finds room, for it finds no message. -/
theorem spares_first_send (hs : h.sizing.Valid) {priority : Nat} {deadline : Option Nat}
    (hrun : (first h herald buffer (.send message priority deadline)).run r = (.ok t, r')) :
    t.Succeeds ∨ t.Spares h buffer r r r' := by
  rw [first, run_get_bind] at hrun
  split at hrun
  · rename_i hempty
    obtain ⟨delivery, r₁, htake, hsend⟩ := run_bind_eq_ok.mp hrun
    obtain ⟨verdict, r₂, htry, hdone⟩ := run_bind_eq_ok.mp hsend
    cases hdone
    have hqueued : r₁.read .queued = 0 :=
      ((keeps_take (s := h.sizing) (F := fun _ => True)
        ⟨rfl, hempty, rfl⟩).outcome delivery r₁ htake).queued_eq
    rcases run_trySend_cases htry with ⟨wake, rfl⟩ | ⟨hfull, -⟩
    · exact Or.inl ⟨_, _, rfl⟩
    · rw [hqueued] at hfull
      exact absurd hs.1.1 (Nat.not_lt_of_le hfull)
  · obtain ⟨delivery, r₁, hnone, hsend⟩ := run_bind_eq_ok.mp hrun
    cases hnone
    obtain ⟨verdict, r₂, htry, hdone⟩ := run_bind_eq_ok.mp hsend
    cases hdone
    rcases run_trySend_cases htry with ⟨wake, rfl⟩ | ⟨-, rfl⟩
    · exact Or.inl ⟨_, _, rfl⟩
    · exact Or.inr spares_of_full

theorem spares_first_receive {deadline : Option Nat}
    (hrun : (first h herald buffer (.receive deadline)).run r = (.ok t, r')) :
    t.Succeeds ∨ t.Spares h buffer r (Request.marked r (.receive deadline)) r' := by
  rw [first, run_get_bind] at hrun
  split at hrun
  · split at hrun
    · cases hrun
      exact Or.inr spares_of_error
    · rw [run_get_bind, run_set_bind] at hrun
      cases hrun
      exact Or.inr ⟨rfl, rfl, rfl, (if_pos rfl).symm⟩
  · exact Or.inl (succeeds_of_receive hrun)

/-- The first turn of a call changes nothing unless it succeeds, but that a receive that has to
wait is counted. -/
theorem spares_first (hs : h.sizing.Valid)
    (hrun : (first h herald buffer request).run r = (.ok t, r')) :
    t.Succeeds ∨ t.Spares h buffer r (request.marked r) r' := by
  cases request with
  | send message priority deadline => exact spares_first_send hs hrun
  | receive deadline => exact spares_first_receive hrun
  | attributes =>
    cases hrun
    exact Or.inl ⟨_, _, rfl⟩
  | setNonblocking on =>
    cases hrun
    exact Or.inl ⟨_, _, rfl⟩
  | notify event =>
    cases event with
    | none =>
      obtain ⟨u, r₁, -, hdone⟩ := run_bind_eq_ok.mp hrun
      cases hdone
      exact Or.inl ⟨_, _, rfl⟩
    | some event =>
      obtain ⟨registered, r₁, hregister, hdone⟩ := run_bind_eq_ok.mp hrun
      cases hdone
      cases registered with
      | true => exact Or.inl ⟨_, _, rfl⟩
      | false =>
        rw [Registration.register, run_get_bind] at hregister
        split at hregister
        · cases hregister
          exact Or.inr spares_of_error
        · cases hregister
  | linger condition policy deadline =>
    cases hrun
    exact Or.inr ⟨rfl, rfl, rfl, (if_pos rfl).symm⟩

/-- A receive that stops waiting takes itself out of the count. -/
theorem run_stopWaiting_marked (hsize : headerSize ≤ r.size)
    (hwaiting : r.read .waiting + 1 < 2 ^ 32) :
    stopWaiting.run (r.write .waiting (r.read .waiting + 1)) = (.ok (), r) := by
  have hfit : Field.waiting.offset + Field.waiting.width ≤ r.size :=
    Nat.le_trans (by decide) hsize
  rw [stopWaiting, run_get_bind, run_set, Region.read_write_self hfit hwaiting, Nat.add_sub_cancel,
    Region.write_write_read hfit]

theorem spares_again (hrun : (again h buffer request).run (request.marked r) = (.ok t, r')) :
    t.Succeeds ∨ t.Spares h buffer r (request.marked r) r' := by
  cases request with
  | send message priority deadline =>
    obtain ⟨verdict, r₁, htry, hdone⟩ := run_bind_eq_ok.mp hrun
    cases hdone
    rcases run_trySend_cases htry with ⟨wake, rfl⟩ | ⟨-, rfl⟩
    · exact Or.inl ⟨_, _, rfl⟩
    · exact Or.inr spares_of_full
  | receive deadline =>
    rw [again, run_get_bind] at hrun
    split at hrun
    · cases hrun
      exact Or.inr ⟨rfl, rfl, rfl, (if_pos rfl).symm⟩
    · obtain ⟨u, r₁, -, hreceive⟩ := run_bind_eq_ok.mp hrun
      exact Or.inl (succeeds_of_receive hreceive)
  | _ =>
    cases hrun
    exact Or.inl ⟨_, _, rfl⟩

theorem spares_giveUp (hsize : headerSize ≤ r.size) (hwaiting : r.read .waiting + 1 < 2 ^ 32)
    {setback : Setback}
    (hrun : (giveUp h buffer setback request).run (request.marked r) = (.ok t, r')) :
    t.Succeeds ∨ t.Spares h buffer r (request.marked r) r' := by
  cases request with
  | receive deadline =>
    rw [giveUp, Request.marked, run_bind_of_ok (run_stopWaiting_marked hsize hwaiting)] at hrun
    cases hrun
    exact Or.inr spares_of_error
  | linger condition policy deadline =>
    cases hrun
    exact Or.inl ⟨_, _, rfl⟩
  | _ =>
    cases hrun
    exact Or.inr spares_of_error

/-- A wait that fails ends its call with an error. -/
theorem run_fail_marked (hsize : headerSize ≤ r.size) (hwaiting : r.read .waiting + 1 < 2 ^ 32)
    (h : Handle) (buffer : ByteArray) (error : SystemError) (request : Request) :
    (fail h buffer error request).run (request.marked r) =
      (.ok { verdict := .finish (.error (.system error)) none, buffer,
             nonblocking := h.nonblocking }, r) := by
  cases request with
  | receive deadline =>
    rw [fail, Request.marked, run_bind_of_ok (run_stopWaiting_marked hsize hwaiting)]
    rfl
  | _ => rfl

end Turn

namespace Call

/-- What a call has come upon when it did something, and what it has done. -/
structure Stride where
  handle : Handle
  around : Surroundings
  found : Shared
  next : Advance

/-- The stride has left the mode of the handle alone and delivered nothing. -/
def Stride.Silent (stride : Stride) : Prop :=
  stride.next.nonblocking = stride.handle.nonblocking ∧ stride.next.delivery = none

/-- What a call goes through from some moment on while nobody else changes the region. Others may
take the lock when it is free, sleep and be woken, wake the thread of the call, and change the mode
of the handle. -/
inductive Course (me : Nat) (h : Handle) (q : Shared) (c : Call) :
    List Stride → Handle → Shared → Call → Prop
  | start : Course me h q c [] h q c
  | step {strides : List Stride} {h' : Handle} {q' : Shared} {c' : Call} {around : Surroundings}
      {pick : Nat} {next : Advance} (hcourse : Course me h q c strides h' q' c')
      (hstep : c'.step me h' around pick q' = some next) :
      Course me h q c (strides ++ [⟨h', around, q', next⟩])
        { h' with nonblocking := next.nonblocking } next.shared next.call
  | expire {strides : List Stride} {h' : Handle} {q' q'' : Shared} {c' c'' : Call}
      (hcourse : Course me h q c strides h' q' c') (hexpire : c'.expire me q' = some (q'', c'')) :
      Course me h q c strides h' q'' c''
  /-- The lock or a wait fails. -/
  | falter {strides : List Stride} {h' : Handle} {q' : Shared} {c' : Call} {next : Advance}
      {error : SystemError} (around : Surroundings) (hcourse : Course me h q c strides h' q' c')
      (hfalter : c'.falter me h' error q' = some next) :
      Course me h q c (strides ++ [⟨h', around, q', next⟩])
        { h' with nonblocking := next.nonblocking } next.shared next.call
  | beside {strides : List Stride} {h' : Handle} {q' q'' : Shared} {c' : Call} (nonblocking : Bool)
      (hcourse : Course me h q c strides h' q' c') (hregion : q''.region = q'.region)
      (hlock : q''.holder = some me ↔ q'.holder = some me) :
      Course me h q c strides { h' with nonblocking } q'' c'

/-- Whether a call has ended otherwise than with an error. -/
def Prevailed (c : Call) : Prop := (∃ reply, c.point = .answered (.ok reply)) ∨ c.Broken

/-- A turn that does not come to a fault gives the lock back unless the call stays inside. -/
theorem takeTurn_outside (turn : Access Turn) (hnext : c.takeTurn h pick q turn = next)
    (hbroken : ¬ next.call.Broken) (hout : ¬ next.call.point.Inside) :
    next.shared.holder ≠ some me := by
  cases hrun : turn.run q.region with
  | mk outcome r =>
    cases outcome with
    | error fault =>
      subst hnext
      simp only [takeTurn, hrun] at hbroken
      exact absurd ⟨fault, rfl⟩ hbroken
    | ok t =>
      obtain ⟨hcall, -, -, -, hholder, -⟩ := takeTurn_of_ok hrun hnext
      rw [hcall] at hout
      rw [hholder]
      cases hverdict : t.verdict with
      | finish answer wake =>
        simp only [Turn.holder, hverdict]
        intro hholder
        cases hholder
      | wait =>
        simp only [Turn.point, hverdict] at hout
        exact absurd trivial hout

/-- After a step a call that is not inside does not hold the lock. -/
theorem step_outside (hout : ¬ c.point.Inside → q.holder ≠ some me)
    (hstep : c.step me h around pick q = some next) (hbroken : ¬ next.call.Broken)
    (hafter : ¬ next.call.point.Inside) : next.shared.holder ≠ some me := by
  cases pace_of_step hstep with
  | goes hpoint hway => exact hout fun hin => hafter (hway.inside_iff.mpr (hpoint ▸ hin))
  | enters => exact absurd trivial hafter
  | @returns seen woken =>
    refine absurd ?_ hafter
    dsimp only
    cases woken || q.orphaned <;> trivial
  | sleeps => exact nofun
  | turns => exact takeTurn_outside _ rfl hbroken hafter

/-- A call has left no trace so far: it holds the lock where it is inside only, the region is the
one it has found, but that a receive that waits is counted, and its strides have been silent. -/
structure Traceless (me : Nat) (request : Request) (buffer : ByteArray) (r : Region) (s : Sizing)
    (strides : List Stride) (h : Handle) (q : Shared) (c : Call) : Prop where
  sizing_eq : h.sizing = s
  request_eq : c.request = request
  buffer_eq : c.buffer = buffer
  region_eq : q.region = if c.point.waits then request.marked r else r
  outside : ¬ c.point.Inside → q.holder ≠ some me
  silent : ∀ stride ∈ strides, stride.Silent

namespace Traceless

variable {s : Sizing} {strides : List Stride} {stride : Stride}

theorem silent_concat (ht : Traceless me request buffer r s strides h q c) (hs : stride.Silent) :
    ∀ other ∈ strides ++ [stride], other.Silent := by
  intro other hother
  rcases List.mem_append.mp hother with hbefore | hlast
  · exact ht.silent other hbefore
  · rw [List.mem_singleton.mp hlast]
    exact hs

/-- A turn that succeeds ends the call, and one that does not leaves no trace. -/
theorem of_turn (ht : Traceless me request buffer r s strides h q c) {turn : Access Turn}
    (hspares : ∀ t r', turn.run q'.region = (.ok t, r') →
      t.Succeeds ∨ t.Spares h c.buffer r (request.marked r) r')
    (hnext : c.takeTurn h pick q' turn = next) :
    next.call.Prevailed ∨ Traceless me request buffer r s (strides ++ [⟨h, around, q, next⟩])
      { h with nonblocking := next.nonblocking } next.shared next.call := by
  cases hrun : turn.run q'.region with
  | mk outcome r' =>
    cases outcome with
    | error fault =>
      subst hnext
      simp only [takeTurn, hrun]
      exact Or.inl (Or.inr ⟨fault, rfl⟩)
    | ok t =>
      obtain ⟨hcall, hregion, hmode, hdelivery, -⟩ := takeTurn_of_ok hrun hnext
      rcases hspares t r' hrun with ⟨reply, wake, hverdict⟩ | hs
      · refine Or.inl (Or.inl ⟨reply, ?_⟩)
        simp only [hcall, Turn.point, hverdict]
      · have hbroken : ¬ next.call.Broken := by
          rintro ⟨fault, hfault⟩
          rw [hcall] at hfault
          unfold Turn.point at hfault
          split at hfault <;> cases hfault
        refine Or.inr ⟨ht.sizing_eq, ?_, ?_, ?_, takeTurn_outside turn hnext hbroken,
          ht.silent_concat ⟨hmode.trans hs.nonblocking_eq, hdelivery.trans hs.delivery_eq⟩⟩
        · rw [hcall]
          exact ht.request_eq
        · rw [hcall]
          exact hs.buffer_eq.trans ht.buffer_eq
        · rw [hregion, hcall]
          exact hs.region_eq

theorem step (hs : s.Valid) (hsize : headerSize ≤ r.size) (hwaiting : r.read .waiting + 1 < 2 ^ 32)
    (ht : Traceless me request buffer r s strides h q c)
    (hstep : c.step me h around pick q = some next) :
    next.call.Prevailed ∨ Traceless me request buffer r s (strides ++ [⟨h, around, q, next⟩])
      { h with nonblocking := next.nonblocking } next.shared next.call := by
  have hregion := ht.region_eq
  have houtside := step_outside ht.outside hstep
  cases step_move hstep with
  | @goes point q' hlock hwaits hdrowsy hasleep hwoken =>
    by_cases hbroken : Broken { c with point }
    · exact Or.inl (Or.inr hbroken)
    refine Or.inr ⟨ht.sizing_eq, ht.request_eq, ht.buffer_eq, ?_, houtside hbroken,
      ht.silent_concat ⟨rfl, rfl⟩⟩
    dsimp only
    rw [hlock.region_eq, hregion, hwaits]
  | sleeps hpoint =>
    refine Or.inr ⟨ht.sizing_eq, ht.request_eq, ht.buffer_eq, ?_, fun _ => nofun,
      ht.silent_concat ⟨rfl, rfl⟩⟩
    dsimp only
    rw [hregion, hpoint]
    rfl
  | turns hturn =>
    refine ht.of_turn (fun t r' hrun => ?_) rfl
    unfold program at hturn
    rw [← ht.request_eq] at hregion ⊢
    split at hturn <;> rename_i hpoint
    · cases hturn
      rw [hregion, hpoint] at hrun
      exact Turn.spares_first (ht.sizing_eq ▸ hs) hrun
    · cases hturn
      rw [hregion, hpoint] at hrun
      exact Turn.spares_again hrun
    · cases hturn
      rw [hregion, hpoint] at hrun
      exact Turn.spares_giveUp hsize hwaiting hrun
    · cases hturn

theorem falter (hsize : headerSize ≤ r.size) (hwaiting : r.read .waiting + 1 < 2 ^ 32)
    (ht : Traceless me request buffer r s strides h q c)
    (hfalter : c.falter me h error q = some next) :
    next.call.Prevailed ∨ Traceless me request buffer r s (strides ++ [⟨h, around, q, next⟩])
      { h with nonblocking := next.nonblocking } next.shared next.call := by
  have hregion := ht.region_eq
  have hspares : c.point.waits = true → ∀ t r',
      (Turn.fail h c.buffer error c.request).run q.region = (.ok t, r') →
        t.Succeeds ∨ t.Spares h c.buffer r (request.marked r) r' := by
    intro hwaits t r' hrun
    rw [hregion, if_pos hwaits, ht.request_eq,
      Turn.run_fail_marked hsize hwaiting h c.buffer error request] at hrun
    cases hrun
    exact Or.inr Turn.spares_of_error
  cases failure_of_falter hfalter with
  | barred hpoint =>
    refine Or.inr ⟨ht.sizing_eq, ht.request_eq, ht.buffer_eq, ?_, ?_, ht.silent_concat ⟨rfl, rfl⟩⟩
    · rw [hregion, hpoint]
      rfl
    · exact fun _ => ht.outside (by rw [hpoint]; exact id)
  | early hpoint => exact ht.of_turn (hspares (by rw [hpoint]; rfl)) rfl
  | late hpoint =>
    refine ht.of_turn ?_ rfl
    exact hspares (by rw [hpoint]; rfl)

theorem expire (ht : Traceless me request buffer r s strides h q c)
    (he : c.expire me q = some (q', c')) :
    Traceless me request buffer r s strides h q' c' := by
  obtain ⟨point, rfl, hwaits, -, -, hregion, -⟩ := expire_move he
  refine ⟨ht.sizing_eq, ht.request_eq, ht.buffer_eq, ?_, ?_, ht.silent⟩
  · rw [hregion, ht.region_eq]
    dsimp only
    rw [hwaits]
  · -- A slice ends outside, and its end does nothing to the lock.
    have houtside := ht.outside
    cases expiry_of_expire he with
    | atDoor hpoint => exact fun _ => houtside (by rw [hpoint]; exact id)
    | asleep hpoint => exact fun _ => houtside (by rw [hpoint]; exact id)

end Traceless

/-- Whether a call is over. -/
def Ended (c : Call) : Prop := (∃ answer, c.point = .answered answer) ∨ c.Broken

theorem Prevailed.ended (hp : c.Prevailed) : c.Ended :=
  hp.imp_left fun ⟨reply, hpoint⟩ => ⟨.ok reply, hpoint⟩

namespace Ended

theorem step_eq (he : c.Ended) : c.step me h around pick q = none := by
  rcases he with ⟨answer, hpoint⟩ | ⟨fault, hpoint⟩ <;> simp only [Call.step, hpoint]

theorem expire_eq (he : c.Ended) : c.expire me q = none := by
  rcases he with ⟨answer, hpoint⟩ | ⟨fault, hpoint⟩ <;> simp only [Call.expire, hpoint]

theorem falter_eq (he : c.Ended) : c.falter me h error q = none := by
  rcases he with ⟨answer, hpoint⟩ | ⟨fault, hpoint⟩ <;> simp only [Call.falter, hpoint]

end Ended

/-- A call that nobody disturbs has prevailed in the end or left no trace. -/
theorem Course.traceless {strides : List Stride} (hs : h.sizing.Valid)
    (hsize : headerSize ≤ q.region.size) (hwaiting : q.region.read .waiting + 1 < 2 ^ 32)
    (hfree : q.holder ≠ some me)
    (hcourse : Course me h q { request, buffer } strides h' q' c') :
    c'.Prevailed ∨ Traceless me request buffer q.region h.sizing strides h' q' c' := by
  induction hcourse with
  | start => exact Or.inr ⟨rfl, rfl, rfl, rfl, fun _ => hfree, fun _ hs => nomatch hs⟩
  | step _ hstep ih =>
    rcases ih with hp | ht
    · cases hp.ended.step_eq.symm.trans hstep
    · exact ht.step hs hsize hwaiting hstep
  | expire _ hexpire ih =>
    rcases ih with hp | ht
    · cases hp.ended.expire_eq.symm.trans hexpire
    · exact Or.inr (ht.expire hexpire)
  | falter around _ hfalter ih =>
    rcases ih with hp | ht
    · cases hp.ended.falter_eq.symm.trans hfalter
    · exact ht.falter hsize hwaiting hfalter
  | beside nonblocking _ hregion hlock ih =>
    rcases ih with hp | ht
    · exact Or.inl hp
    · refine Or.inr ⟨ht.sizing_eq, ht.request_eq, ht.buffer_eq, hregion.trans ht.region_eq,
        fun hout hheld => ?_, ht.silent⟩
      exact ht.outside hout (hlock.mp hheld)

/-- What a call comes to that is left alone is part of its course. -/
theorem Course.comes {strides : List Stride} {n : Nat} {q'' : Shared} {c'' : Call}
    (hcourse : Course me h q c strides h' q' c') (hcomes : Comes me h' around n q' c' q'' c'') :
    ∃ strides', Course me h q c strides' h' q'' c'' := by
  induction hcomes generalizing strides with
  | here => exact ⟨strides, hcourse⟩
  | goes hstep _ _ ih => exact ih (hcourse.step hstep)

/-- What a call can be refused for before it asks for the lock, with whether it is, in the order in
which the refusals count. -/
def refusals (h : Handle) (around : Surroundings) (q : Shared) (buffer : ByteArray) :
    Request → List (Bool × Error)
  | .send message priority _ => [
      (around.cancelled, .cancelled),
      (!q.tagged, .badHandle),
      (priorityLimit ≤ priority, .invalidPriority priority),
      (h.sizing.messageSize < message.size,
        .messageTooLarge message.size h.sizing.messageSize)]
  | .receive _ => [
      (around.cancelled, .cancelled),
      (!q.tagged, .badHandle),
      (buffer.size < h.sizing.messageSize, .bufferTooSmall buffer.size h.sizing.messageSize)]
  | _ => []

/-- The first of the refusals that apply. -/
def firstRefusal (h : Handle) (around : Surroundings) (q : Shared) (buffer : ByteArray)
    (request : Request) : Option Error :=
  ((refusals h around q buffer request).find? (·.1)).map (·.2)

/-- The point that a call reaches from its arrival. -/
def afterArrival (h : Handle) (around : Surroundings) (q : Shared) (buffer : ByteArray)
    (request : Request) : Point :=
  match firstRefusal h around q buffer request with
  | some error => .answered (.error error)
  | none => .knocking

theorem arrive_eq (h : Handle) (around : Surroundings) (q : Shared) (buffer : ByteArray)
    (request : Request) : arrive h around q { request, buffer } =
      afterArrival h around q buffer request := by
  unfold arrive afterArrival firstRefusal
  cases request with
  | send message priority deadline =>
    simp only [Request.transfers, refusals, refusal?, List.find?_cons]
    cases around.cancelled
    · cases q.tagged
      · rfl
      · by_cases hpriority : priorityLimit ≤ priority
        · simp [hpriority]
        · by_cases hlength : h.sizing.messageSize < message.size <;> simp [hpriority, hlength]
    · rfl
  | receive deadline =>
    simp only [Request.transfers, refusals, refusal?, List.find?_cons]
    cases around.cancelled
    · cases q.tagged
      · rfl
      · by_cases hlength : buffer.size < h.sizing.messageSize <;> simp [hlength]
    · rfl
  | _ => rfl

/-- A call that arrives is refused, or it goes on to the lock, whoever holds that. -/
theorem step_arriving (h : Handle) (around : Surroundings) (q : Shared) (buffer : ByteArray)
    (request : Request) (me pick : Nat) :
    step me h around pick q { request, buffer } = some
      { call := { request, buffer, point := afterArrival h around q buffer request },
        shared := q, nonblocking := h.nonblocking } :=
  congrArg (fun point => some (⟨⟨request, buffer, point⟩, q, h.nonblocking, none⟩ : Advance))
    (arrive_eq h around q buffer request)

/-- What a call was refused for on its arrival is its answer, and it has done nothing since. -/
def Heeded (request : Request) (buffer : ByteArray) (strides : List Stride) (c : Call) : Prop :=
  match strides with
  | [] => c = { request, buffer }
  | first :: rest => ∀ refused,
      firstRefusal first.handle first.around first.found buffer request = some refused →
        rest = [] ∧ c.point = .answered (.error refused)

/-- A call that is not over has not been refused on its arrival. -/
theorem Heeded.onward {strides : List Stride} (hh : Heeded request buffer strides c)
    (hgoes : ¬ c.Ended) (harrived : strides = [] → c.point ≠ .arriving) (more : List Stride)
    (c' : Call) : Heeded request buffer (strides ++ more) c' := by
  cases strides with
  | nil =>
    rw [show c = { request, buffer } from hh] at harrived
    exact absurd rfl (harrived rfl)
  | cons first rest =>
    intro refused hrefused
    exact absurd (Or.inl ⟨_, (hh refused hrefused).2⟩) hgoes

theorem Course.heeded {strides : List Stride}
    (hcourse : Course me h q { request, buffer } strides h' q' c') :
    Heeded request buffer strides c' := by
  induction hcourse with
  | start => rfl
  | @step strides h' q' c' around pick next _ hstep ih =>
    cases strides with
    | nil =>
      cases ih
      rw [step_arriving] at hstep
      cases hstep
      intro refused hrefused
      refine ⟨rfl, ?_⟩
      dsimp only at hrefused ⊢
      rw [afterArrival, hrefused]
    | cons first rest =>
      have hgoes : ¬ c'.Ended := fun he => by cases he.step_eq.symm.trans hstep
      exact ih.onward hgoes nofun _ _
  | @expire strides h' q' q'' c' c'' _ hexpire ih =>
    have hgoes : ¬ c'.Ended := fun he => by cases he.expire_eq.symm.trans hexpire
    have harrived : c'.point ≠ .arriving := fun hpoint => by
      simp only [Call.expire, hpoint] at hexpire
      cases hexpire
    exact List.append_nil strides ▸ ih.onward hgoes (fun _ => harrived) [] c''
  | @falter strides h' q' c' next error around _ hfalter ih =>
    have hgoes : ¬ c'.Ended := fun he => by cases he.falter_eq.symm.trans hfalter
    have harrived : c'.point ≠ .arriving := fun hpoint => by
      simp only [Call.falter, hpoint] at hfalter
      cases hfalter
    exact ih.onward hgoes (fun _ => harrived) _ _
  | beside nonblocking _ hregion hlock ih => exact ih

end Call

/-- On any bytes whatever, a call that ends with an error has left no trace: the region and the
buffer are as it has found them, every stride of it has left the mode of the handle alone and
delivered nothing, and it does not hold the lock. When it arrives it is refused for the first of
the reasons that apply, whoever holds the lock, and that is the end of it then. -/
theorem refused_without_trace (me : Nat) (h : Handle) (q : Shared) (request : Request)
    (buffer : ByteArray) {total : Nat} (htotal : h.sizing.fileSize? = some total)
    (hsize : total ≤ q.region.size) (hwaiting : q.region.read .waiting + 1 < 2 ^ 32)
    (hfree : q.holder ≠ some me) :
    (∀ strides h' q' c' error,
      Call.Course me h q { request, buffer } strides h' q' c' →
        c'.point = .answered (.error error) →
          q'.region = q.region ∧ c'.buffer = buffer ∧ q'.holder ≠ some me ∧
            ∀ stride ∈ strides, stride.Silent) ∧
    (∀ around pick, Call.step me h around pick q { request, buffer } = some
      { call := { request, buffer, point := Call.afterArrival h around q buffer request },
        shared := q, nonblocking := h.nonblocking }) ∧
    ∀ strides h' q' c', Call.Course me h q { request, buffer } strides h' q' c' →
      ∀ first rest, strides = first :: rest → ∀ refused,
        Call.firstRefusal first.handle first.around first.found buffer request = some refused →
          rest = [] ∧ c'.point = .answered (.error refused) := by
  obtain ⟨hs, rfl⟩ := Sizing.fileSize?_eq_some.mp htotal
  have hheader : headerSize ≤ q.region.size := Nat.le_trans (Nat.le_add_right _ _) hsize
  refine ⟨?_, fun around pick => Call.step_arriving h around q buffer request me pick, ?_⟩
  · intro strides h' q' c' error hcourse hpoint
    rcases hcourse.traceless hs hheader hwaiting hfree with hp | ht
    · rcases hp with ⟨reply, hreply⟩ | ⟨fault, hfault⟩
      · cases hreply.symm.trans hpoint
      · cases hfault.symm.trans hpoint
    · refine ⟨?_, ht.buffer_eq, ht.outside (by rw [hpoint]; exact id), ht.silent⟩
      rw [ht.region_eq, hpoint]
      rfl
  · rintro strides h' q' c' hcourse first rest rfl refused hrefused
    exact hcourse.heeded refused hrefused

/-- A receive gives up at its deadline on a queue whose lists lead in a circle, and a receive with
too small a buffer is refused while another thread holds the lock. -/
theorem timed_out_without_trace : ∃ (r : Region) (strides : List Call.Stride) (q' : Shared)
    (c' : Call), r.size = 248 ∧ r.read .head = 200 ∧ r.read (.next 200) = 200 ∧
      Call.Course 0 ⟨⟨2, 4⟩, 1, false⟩ { region := r }
        { request := .receive (some 0), buffer := ⟨#[1, 2, 3, 4]⟩ } strides ⟨⟨2, 4⟩, 1, false⟩
        q' c' ∧
      c'.point = .answered (.error .timedOut) ∧ q'.region = r ∧ c'.buffer = ⟨#[1, 2, 3, 4]⟩ ∧
      q'.holder ≠ some 0 ∧ (∀ stride ∈ strides, stride.Silent) ∧
      Call.step 0 ⟨⟨2, 4⟩, 1, false⟩ ⟨false, 0, 0, .smooth⟩ 0
          { region := r, holder := some 1 } { request := .receive none, buffer := ⟨#[1]⟩ } = some
        { call := { request := .receive none, buffer := ⟨#[1]⟩,
                    point := .answered (.error (.bufferTooSmall 1 4)) },
          shared := { region := r, holder := some 1 }, nonblocking := false } := by
  let r := (((Region.zeros 248).write .tag Layout.validTag).write .head 200).write (.next 200) 200
  have htotal : Sizing.fileSize? ⟨2, 4⟩ = some 248 := by decide
  obtain ⟨hsize, hwaiting, hqueued, htag, hhead, hnext⟩ : r.size = 248 ∧ r.read .waiting = 0 ∧
      r.read .queued = 0 ∧ r.read .tag = Layout.validTag ∧ r.read .head = 200 ∧
      r.read (.next 200) = 200 := by decide +kernel
  clear_value r
  have hfits : 248 ≤ r.size := Nat.le_of_eq hsize.symm
  have hroom : r.read .waiting + 1 < 2 ^ 32 := by rw [hwaiting]; decide
  let h : Handle := ⟨⟨2, 4⟩, 1, false⟩
  let around : Surroundings := ⟨false, 0, 0, .smooth⟩
  let receive : Request := .receive (some 0)
  let buffer : ByteArray := ⟨#[1, 2, 3, 4]⟩
  -- The receive finds no message, counts itself, and is late.
  have hwaits :
      Call.step 0 h around 0 { region := r, holder := some 0 } ⟨receive, buffer, .inside⟩ = some
        { call := ⟨receive, buffer, .waitCancelled⟩,
          shared := { region := receive.marked r, holder := some 0 }, nonblocking := false } := by
    have hturn : (Turn.first h around.herald buffer receive).run r =
        (.ok ⟨.wait, buffer, false, none⟩, receive.marked r) := by
      rw [Turn.first, run_get_bind, if_pos hqueued]
      rfl
    simp only [Call.step, Call.takeTurn, hturn]
  have hgives : Call.step 0 h around 0 { region := receive.marked r, holder := some 0 }
      ⟨receive, buffer, .quitting .timedOut⟩ =
      some { call := ⟨receive, buffer, .answered (.error .timedOut)⟩,
             shared := { region := r }, nonblocking := false } := by
    have hturn : (Turn.giveUp h buffer .timedOut receive).run (receive.marked r) =
        (.ok ⟨.finish (.error .timedOut) none, buffer, false, none⟩, r) := by
      rw [Turn.giveUp, Request.marked,
        run_bind_of_ok (Turn.run_stopWaiting_marked (Nat.le_trans (by decide) hfits) hroom)]
      rfl
    simp only [Call.step, Call.takeTurn, hturn]
  have htagged : ({ region := r } : Shared).tagged = true := decide_eq_true htag
  have hcomes : Call.Comes 0 h around 3 { region := r } ⟨receive, buffer, .arriving⟩
      { region := r, holder := some 0 } ⟨receive, buffer, .inside⟩ :=
    .inside rfl htagged rfl rfl
  have hlate : Call.Comes 0 h around 3 { region := receive.marked r, holder := some 0 }
      ⟨receive, buffer, .waitCancelled⟩ { region := receive.marked r, holder := some 0 }
      ⟨receive, buffer, .quitting .timedOut⟩ := .quitting rfl rfl
  obtain ⟨_, hinside⟩ := Call.Course.start.comes hcomes
  obtain ⟨_, hquitting⟩ := (hinside.step hwaits).comes hlate
  have hcourse := hquitting.step hgives
  obtain ⟨htraceless, -, -⟩ := refused_without_trace 0 h { region := r } receive buffer htotal hfits
    hroom fun heq => by cases heq
  obtain ⟨-, hrefused, -⟩ := refused_without_trace 0 h { region := r, holder := some 1 }
    (.receive none) ⟨#[1]⟩ htotal hfits hroom fun heq => absurd (Option.some.inj heq) (by decide)
  obtain ⟨hregion, hbuffer, hlock, hsilent⟩ := htraceless _ _ _ _ _ hcourse rfl
  refine ⟨r, _, _, _, hsize, hhead, hnext, hcourse, rfl, hregion, hbuffer, hlock, hsilent, ?_⟩
  have hsmall :
      Call.afterArrival h around { region := r, holder := some 1 } ⟨#[1]⟩ (.receive none) =
        .answered (.error (.bufferTooSmall 1 4)) := by
    rw [← Call.arrive_eq]
    have htagged' : ({ region := r, holder := some 1 } : Shared).tagged = true :=
      decide_eq_true htag
    unfold Call.arrive
    rw [htagged']
    rfl
  rw [hrefused around 0, hsmall]

end MappedQueue
