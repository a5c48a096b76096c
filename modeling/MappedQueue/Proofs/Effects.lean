import MappedQueue.Proofs.Calls

/-!
# What a turn can do

A turn sends, receives, registers or withdraws, or it does nothing to the messages and the
registration. A delivery is made by a turn that sends, and by no other.
-/

namespace MappedQueue

variable {s : Sizing} {h : Handle} {herald : Herald} {a b : Ideal} {c : Call} {t : Turn}

/-- Whether an answer tells of no message and no registration. -/
def Plain : Answer → Prop
  | .ok .sent | .ok (.received _ _) | .ok .notified => False
  | _ => True

/-- What a turn of a call does, taken by a handle on a queue `a` that becomes `b`. -/
inductive Turn.Does (h : Handle) (c : Call) (a : Ideal) (t : Turn) (b : Ideal) : Prop
  | send {bytes : ByteArray} {priority : Nat} {deadline : Option Nat}
      (hrequest : c.request = .send bytes priority deadline)
      (hroom : a.messages.length < h.sizing.capacity)
      (hverdict : t.verdict =
        .finish (.ok .sent) (if a.messages = [] then some .notEmpty else none))
      (hmessages : b.messages = Backlog.insert ⟨bytes, priority⟩ a.messages)
      (hdelivery : (t.delivery = none ∧ b.registered = a.registered) ∨
        (a.Quiet ∧ t.delivery.map (·.toDelivery) = a.registered ∧ b.registered = none))
  | receive {m : Message} {rest : List Message} {deadline : Option Nat}
      (hrequest : c.request = .receive deadline) (hhead : a.messages = m :: rest)
      (hverdict : t.verdict = .finish (.ok (.received m.bytes.size m.priority))
        (if rest.length + 1 = h.sizing.capacity then some .notFull else none))
      (hbuffer : t.buffer = Turn.overwrite c.buffer m.bytes) (hmessages : b.messages = rest)
      (hdelivery : t.delivery = none) (hregistered : b.registered = a.registered)
  | register {event : Event} (hrequest : c.request = .notify (some event))
      (hverdict : t.verdict = .finish (.ok .notified) none) (hdelivery : t.delivery = none)
      (hmessages : b.messages = a.messages) (hregistered : b.registered = some ⟨h.identity, event⟩)
  | withdraw (hrequest : c.request = .notify none)
      (hverdict : t.verdict = .finish (.ok .notified) none) (hdelivery : t.delivery = none)
      (hmessages : b.messages = a.messages)
      (hregistered : b.registered = a.registered.filter (·.owner ≠ h.identity))
  | decline {answer : Answer} (hverdict : t.verdict = .finish answer none) (hplain : Plain answer)
      (hdelivery : t.delivery = none) (hmessages : b.messages = a.messages)
      (hregistered : b.registered = a.registered)
  | wait (hverdict : t.verdict = .wait) (hbuffer : t.buffer = c.buffer)
      (hdelivery : t.delivery = none)
      (hmessages : b.messages = a.messages) (hregistered : b.registered = a.registered)

/-- A call that goes on after a turn has its buffer back. -/
theorem Turn.Does.buffer_eq (hd : t.Does h c a b) (hp : t.point.Onward) : t.buffer = c.buffer := by
  cases hd with
  | wait hverdict hbuffer => exact hbuffer
  | _ =>
    unfold Turn.point at hp
    simp only [*] at hp
    exact hp.elim

namespace Ideal

theorem trySend_does {bytes : ByteArray} {priority : Nat} {deadline : Option Nat}
    (hrequest : c.request = .send bytes priority deadline) {a' : Ideal} {delivery : Option Dispatch}
    (hmessages : a'.messages = a.messages)
    (hdelivery : (delivery = none ∧ a'.registered = a.registered) ∨
      (a.Quiet ∧ delivery.map (·.toDelivery) = a.registered ∧ a'.registered = none))
    (hcapacity : 0 < h.sizing.capacity) :
    Turn.Does h c a
      { verdict := (a'.trySend h ⟨bytes, priority⟩).1, buffer := c.buffer,
        nonblocking := h.nonblocking, delivery } (a'.trySend h ⟨bytes, priority⟩).2 := by
  unfold trySend
  rw [hmessages]
  by_cases hroom : a.messages.length < h.sizing.capacity
  · rw [if_pos hroom]
    exact .send hrequest hroom rfl (by rw [← hmessages]) hdelivery
  · -- A delivery is due on an empty queue only, and that one has room.
    have hnone : delivery = none ∧ a'.registered = a.registered := by
      refine hdelivery.resolve_right fun hquiet => hroom ?_
      rw [hquiet.1.1]
      exact hcapacity
    rw [if_neg hroom]
    cases h.nonblocking with
    | true => exact .decline rfl trivial hnone.1 hmessages hnone.2
    | false => exact .wait rfl rfl hnone.1 hmessages hnone.2

theorem first_does (hcapacity : 0 < h.sizing.capacity) :
    Turn.Does h c a (a.first h herald c.buffer c.request).1 (a.first h herald c.buffer c.request).2 := by
  cases hrequest : c.request with
  | send bytes priority deadline =>
    refine trySend_does hrequest ?_ ?_ hcapacity
    · unfold fired
      split <;> rfl
    · unfold fired due
      by_cases hq : a.Quiet
      · rw [if_pos hq, if_pos hq]
        exact Or.inr ⟨hq, herald.map_dispatch a.registered, rfl⟩
      · rw [if_neg hq, if_neg hq]
        exact Or.inl ⟨rfl, rfl⟩
  | receive deadline =>
    rw [first]
    cases hmessages : a.messages with
    | nil =>
      dsimp only
      cases h.nonblocking with
      | true => exact .decline rfl trivial rfl rfl rfl
      | false => exact .wait rfl rfl rfl hmessages.symm rfl
    | cons m rest => exact .receive hrequest hmessages rfl rfl rfl rfl rfl
  | attributes => exact .decline rfl trivial rfl rfl rfl
  | setNonblocking on => exact .decline rfl trivial rfl rfl rfl
  | notify event =>
    cases event with
    | none => exact .withdraw hrequest rfl rfl rfl rfl
    | some event =>
      rw [first]
      by_cases hb : a.Busy herald.alive h.identity
      · rw [if_pos hb]
        exact .decline rfl trivial rfl rfl rfl
      · rw [if_neg hb]
        exact .register hrequest rfl rfl rfl rfl
  | linger condition policy deadline => exact .wait rfl rfl rfl rfl rfl

theorem again_does (hcapacity : 0 < h.sizing.capacity) :
    Turn.Does h c a (a.again h c.buffer c.request).1 (a.again h c.buffer c.request).2 := by
  cases hrequest : c.request with
  | send bytes priority deadline =>
    exact trySend_does hrequest rfl (Or.inl ⟨rfl, rfl⟩) hcapacity
  | receive deadline =>
    rw [again]
    cases hmessages : a.messages with
    | nil => exact .wait rfl rfl rfl rfl rfl
    | cons m rest => exact .receive hrequest hmessages rfl rfl rfl rfl rfl
  | attributes => exact .decline rfl trivial rfl rfl rfl
  | setNonblocking on => exact .decline rfl trivial rfl rfl rfl
  | notify event => exact .decline rfl trivial rfl rfl rfl
  | linger condition policy deadline => exact .decline rfl trivial rfl rfl rfl

theorem giveUp_does (setback : Setback) :
    Turn.Does h c a (a.giveUp h c.buffer setback c.request).1
      (a.giveUp h c.buffer setback c.request).2 := by
  cases c.request <;> exact .decline rfl trivial rfl rfl rfl

/-- A call takes a turn after its arguments were accepted and before it is over. -/
theorem onward_of_turn (ht : a.turn h herald c = some (t, b)) : c.point.Onward := by
  rcases turn_cases ht with ⟨hpoint, -⟩ | ⟨hpoint, -⟩ | ⟨setback, hpoint, -⟩
  · rw [hpoint]; trivial
  · rw [hpoint]; trivial
  · rw [hpoint]; trivial

/-- Whichever turn a call takes, it does one of these things. -/
theorem turn_does (hcapacity : 0 < h.sizing.capacity) (ht : a.turn h herald c = some (t, b)) :
    t.Does h c a b := by
  rcases turn_cases ht with ⟨-, rfl, rfl⟩ | ⟨-, rfl, rfl⟩ | ⟨setback, -, rfl, rfl⟩
  · exact first_does hcapacity
  · exact again_does hcapacity
  · exact giveUp_does setback

end Ideal

end MappedQueue
