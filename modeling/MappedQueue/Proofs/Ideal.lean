import Mathlib.Algebra.Group.Nat.Defs
import MappedQueue.Proofs.Backlog
import MappedQueue.Turn

/-!
# Queues without bytes

What the users of a queue can see of a region is a list of messages, a count of waiting
receivers and a registration. On these, every turn of a call is a simple function: a
message is inserted or the head is removed, and a registration is replaced, withdrawn or
taken for a delivery.
-/

namespace MappedQueue

/-- What a region means to the users of the queue. -/
structure Ideal where
  /-- The next one to be received comes first. -/
  messages : List Message := []
  waiting : Nat := 0
  /-- Who is registered, and what is to be delivered. -/
  registered : Option Delivery := none

namespace Ideal

/-- Whether a message that arrives now sets off the notification. -/
def Quiet (a : Ideal) : Prop := a.messages = [] ∧ a.waiting = 0

instance (a : Ideal) : Decidable a.Quiet := inferInstanceAs (Decidable (_ ∧ _))

/-- The delivery that a message sets off which arrives now. -/
def due (a : Ideal) : Option Delivery := if a.Quiet then a.registered else none

/-- The registration has been taken if its delivery was due. -/
def fired (a : Ideal) : Ideal := if a.Quiet then { a with registered := none } else a

theorem due_of_none {a : Ideal} (hn : a.registered = none) : a.due = none := by
  rw [due, hn, ite_self]

theorem fired_of_none {a : Ideal} (hn : a.registered = none) : a.fired = a := by
  unfold fired
  split
  · rw [← hn]
  · rfl

/-- Inserts a message if there is room. -/
def trySend (h : Handle) (m : Message) (a : Ideal) : Verdict × Ideal :=
  if a.messages.length < h.sizing.capacity then
    (.finish (.ok .sent) (if a.messages = [] then some .notEmpty else none),
      { a with messages := Backlog.insert m a.messages })
  else (if h.nonblocking then .finish (.error .wouldBlock) none else .wait, a)

/-- Removes the head of the messages. -/
def receive (h : Handle) (buffer : ByteArray) (m : Message) (rest : List Message) (a : Ideal) :
    Turn × Ideal :=
  ({ verdict := .finish (.ok (.received m.bytes.size m.priority))
      (if rest.length + 1 = h.sizing.capacity then some .notFull else none)
     buffer := Turn.overwrite buffer m.bytes
     nonblocking := h.nonblocking },
    { a with messages := rest })

def attributes (h : Handle) (a : Ideal) : Attributes where
  nonblocking := h.nonblocking
  sizing := h.sizing
  queued := a.messages.length

/-- Whether `identity` cannot register because another one is registered and alive. -/
def Busy (alive : Nat → Bool) (identity : Nat) (a : Ideal) : Prop :=
  ∃ held ∈ a.registered, held.owner ≠ identity ∧ alive held.owner = true

instance (alive : Nat → Bool) (identity : Nat) (a : Ideal) : Decidable (a.Busy alive identity) :=
  inferInstanceAs (Decidable (∃ held ∈ a.registered, _))

/-- Without the registration of `identity`. -/
def withdraw (identity : Nat) (a : Ideal) : Ideal :=
  { a with registered := a.registered.filter (·.owner ≠ identity) }

theorem withdraw_other {identity : Nat} {a : Ideal}
    (hother : ∀ held ∈ a.registered, held.owner ≠ identity) : a.withdraw identity = a := by
  obtain ⟨messages, waiting, registered⟩ := a
  simp only [withdraw, mk.injEq, true_and]
  cases registered with
  | none => rfl
  | some held => simp [hother held rfl]

def first (h : Handle) (herald : Herald) (buffer : ByteArray) (a : Ideal) :
    Request → Turn × Ideal
  | .send message priority _ =>
    let sent := a.fired.trySend h ⟨message, priority⟩
    ({ verdict := sent.1, buffer, nonblocking := h.nonblocking,
       delivery := a.due.map herald.dispatch }, sent.2)
  | .receive _ =>
    match a.messages with
    | [] =>
      if h.nonblocking then
        ({ verdict := .finish (.error .wouldBlock) none, buffer, nonblocking := h.nonblocking }, a)
      else
        ({ verdict := .wait, buffer, nonblocking := h.nonblocking },
          { a with waiting := (a.waiting + 1) % 2 ^ 32 })
    | m :: rest => a.receive h buffer m rest
  | .attributes =>
    ({ verdict := .finish (.ok (.attributes (a.attributes h))) none, buffer,
       nonblocking := h.nonblocking }, a)
  | .setNonblocking on =>
    ({ verdict := .finish (.ok (.attributes (a.attributes h))) none, buffer, nonblocking := on }, a)
  | .notify none =>
    ({ verdict := .finish (.ok .notified) none, buffer, nonblocking := h.nonblocking },
      a.withdraw h.identity)
  | .notify (some event) =>
    if a.Busy herald.alive h.identity then
      ({ verdict := .finish (.error .busy) none, buffer, nonblocking := h.nonblocking }, a)
    else
      ({ verdict := .finish (.ok .notified) none, buffer, nonblocking := h.nonblocking },
        { a with registered := some ⟨h.identity, event⟩ })
  | .linger _ _ _ => ({ verdict := .wait, buffer, nonblocking := h.nonblocking }, a)

def again (h : Handle) (buffer : ByteArray) (a : Ideal) : Request → Turn × Ideal
  | .send message priority _ =>
    let sent := a.trySend h ⟨message, priority⟩
    ({ verdict := sent.1, buffer, nonblocking := h.nonblocking }, sent.2)
  | .receive _ =>
    match a.messages with
    | [] => ({ verdict := .wait, buffer, nonblocking := h.nonblocking }, a)
    | m :: rest => { a with waiting := a.waiting - 1 }.receive h buffer m rest
  | _ => ({ verdict := .finish (.ok (.waited none)) none, buffer, nonblocking := h.nonblocking }, a)

def giveUp (h : Handle) (buffer : ByteArray) (setback : Setback) (a : Ideal) :
    Request → Turn × Ideal
  | .receive _ =>
    ({ verdict := .finish (.error setback.error) none, buffer, nonblocking := h.nonblocking },
      { a with waiting := a.waiting - 1 })
  | .linger _ _ _ =>
    ({ verdict := .finish (.ok (.waited (some setback))) none, buffer,
       nonblocking := h.nonblocking }, a)
  | _ => ({ verdict := .finish (.error setback.error) none, buffer,
            nonblocking := h.nonblocking }, a)

/-- What is left when a call ends that was counted as waiting, or was not. -/
def stopWaiting (receiving : Bool) (a : Ideal) : Ideal :=
  { a with waiting := if receiving then a.waiting - 1 else a.waiting }

end Ideal

end MappedQueue
