import Mathlib.Logic.Function.Basic
import MappedQueue.Client.Traffic
import MappedQueue.Proofs.Backlog

/-!
# The abstract queue

To a user whose calls never wait, a queue is a list of messages in order of priority with
limited room, and every handle on it either blocks or does not. A call that cannot do what
it is for says so: at once through a handle that does not block, and because its deadline
has passed otherwise.
-/

namespace MappedQueue

@[simp] theorem Outcome.answer_trimmed (outcome : Outcome) :
    outcome.trimmed.answer = outcome.answer := by
  unfold trimmed
  split <;> rfl

/-- A call that moves a message or asks for the attributes. -/
inductive Errand where
  | send (m : Message) (deadline : Option Nat)
  | receive (buffer : ByteArray) (deadline : Option Nat)
  /-- A receive into a new buffer. -/
  | receiveNew
  | attributes
  | setNonblocking (on : Bool)

namespace Errand

/-- The errand as a job for a thread, on a queue of a sizing. -/
def job (s : Sizing) : Errand → Job
  | send m deadline => { request := .send m.bytes m.priority deadline }
  | receive buffer deadline => { request := .receive deadline, buffer }
  | receiveNew => .receiveNew s
  | attributes => { request := .attributes }
  | setNonblocking on => { request := .setNonblocking on }

/-- What the caller gets of the outcome of the job. -/
def yields : Errand → Outcome → Outcome
  | receiveNew, outcome => outcome.trimmed
  | _, outcome => outcome

/-- Whether the arguments are such that the queue takes them. -/
def Admissible (s : Sizing) : Errand → Prop
  | send m _ => m.bytes.size ≤ s.messageSize ∧ m.priority < priorityLimit
  | receive buffer _ => s.messageSize ≤ buffer.size
  | receiveNew | attributes | setNonblocking _ => True

/-- Whether the errand does not wait at the moment `now`. -/
def Prompt (nonblocking : Bool) (now : Nat) : Errand → Prop
  | send _ deadline | receive _ deadline =>
    nonblocking = true ∨ ∃ moment, deadline = some moment ∧ moment ≤ now
  | receiveNew => nonblocking = true
  | attributes | setNonblocking _ => True

def Receives : Errand → Prop
  | receive _ _ | receiveNew => True
  | _ => False

end Errand

/-- An errand through the handle of a number. No less time than up to `moment` passes
before it. -/
structure Visit where
  moment : Nat := 0
  number : Nat
  errand : Errand

/-- The messages of a queue, and which handles on it do not block. -/
structure PriorityQueue where
  messages : List Message := []
  nonblocking : Nat → Bool

namespace PriorityQueue

/-- Why a call did not do what it is for. -/
def excuse (a : PriorityQueue) (number : Nat) : Error :=
  if a.nonblocking number then .wouldBlock else .timedOut

/-- The attributes as the handle of a number sees them. -/
def attributes (s : Sizing) (a : PriorityQueue) (number : Nat) : Attributes where
  nonblocking := a.nonblocking number
  sizing := s
  queued := a.messages.length

/-- How an errand ends, and what it makes of the queue. -/
def call (s : Sizing) (number : Nat) (a : PriorityQueue) : Errand → Outcome × PriorityQueue
  | .send m _ =>
    if a.messages.length < s.capacity then
      (⟨.ok .sent, .empty⟩, { a with messages := Backlog.insert m a.messages })
    else (⟨.error (a.excuse number), .empty⟩, a)
  | .receive buffer _ =>
    match a.messages with
    | [] => (⟨.error (a.excuse number), buffer⟩, a)
    | m :: rest =>
      (⟨.ok (.received m.bytes.size m.priority),
        m.bytes ++ buffer.extract m.bytes.size buffer.size⟩, { a with messages := rest })
  | .receiveNew =>
    match a.messages with
    | [] => (⟨.error (a.excuse number), .empty⟩, a)
    | m :: rest =>
      (⟨.ok (.received m.bytes.size m.priority), m.bytes⟩, { a with messages := rest })
  | .attributes => (⟨.ok (.attributes (a.attributes s number)), .empty⟩, a)
  | .setNonblocking on =>
    (⟨.ok (.attributes (a.attributes s number)), .empty⟩,
      { a with nonblocking := Function.update a.nonblocking number on })

/-- How errands end that are made one after the other, and what they make of the queue. -/
def visits (s : Sizing) : List Visit → PriorityQueue → List Outcome × PriorityQueue
  | [], a => ([], a)
  | v :: rest, a =>
    let (outcome, a) := a.call s v.number v.errand
    let (outcomes, a) := visits s rest a
    (outcome :: outcomes, a)

/-- Whether none of the errands waits when its turn comes. -/
def Prompt (s : Sizing) : (now : Nat) → List Visit → PriorityQueue → Prop
  | _, [], _ => True
  | now, v :: rest, a =>
    v.errand.Prompt (a.nonblocking v.number) (max now v.moment) ∧
      Prompt s (max now v.moment) rest (a.call s v.number v.errand).2

/-- A call changes the mode of no handle but its own. -/
theorem nonblocking_call_of_ne {number other : Nat} (hne : other ≠ number) (s : Sizing)
    (a : PriorityQueue) (errand : Errand) :
    (a.call s number errand).2.nonblocking other = a.nonblocking other := by
  cases errand with
  | send m deadline =>
    rw [call]
    split <;> rfl
  | receive | receiveNew =>
    rw [call]
    split <;> rfl
  | attributes => rfl
  | setNonblocking on => exact Function.update_of_ne hne ..

theorem ordered_call {s : Sizing} {number : Nat} {a : PriorityQueue}
    (ha : Backlog.Ordered a.messages) (errand : Errand) :
    Backlog.Ordered (a.call s number errand).2.messages := by
  cases errand with
  | send m deadline =>
    rw [call]
    split
    · exact ha.insert m
    · exact ha
  | receive | receiveNew =>
    rw [call]
    split
    · exact ha
    · rename_i m rest hmessages
      rw [hmessages] at ha
      exact (List.pairwise_cons.mp ha).2
  | attributes => exact ha
  | setNonblocking on => exact ha

theorem ordered_visits {s : Sizing} (visits : List Visit) : ∀ {a : PriorityQueue},
    Backlog.Ordered a.messages → Backlog.Ordered (a.visits s visits).2.messages := by
  induction visits with
  | nil => exact id
  | cons v rest ih => exact fun ha => ih (ordered_call ha v.errand)

/-- A buffer that a message was received into holds it. -/
theorem message_of_receives (s : Sizing) (number : Nat) {a : PriorityQueue} {m : Message}
    {rest : List Message} (ha : a.messages = m :: rest) {errand : Errand}
    (hreceives : errand.Receives) : (a.call s number errand).1.message? = some m := by
  cases errand with
  | receive buffer deadline =>
    rw [call, ha]
    simp only [Outcome.message?, ByteArray.extract_append_eq_left rfl]
  | receiveNew =>
    rw [call, ha]
    simp only [Outcome.message?, ByteArray.extract_zero_size]
  | _ => exact hreceives.elim

/-- A new buffer yields what is in front of it when it is trimmed. -/
theorem call_receiveNew (s : Sizing) (number : Nat) (a : PriorityQueue) (buffer : ByteArray)
    (deadline : Option Nat) : a.call s number .receiveNew =
      ((a.call s number (.receive buffer deadline)).1.trimmed,
        (a.call s number (.receive buffer deadline)).2) := by
  rw [call, call]
  cases a.messages with
  | nil => rfl
  | cons m rest => simp only [Outcome.trimmed, ByteArray.extract_append_eq_left rfl]

theorem length_visits {s : Sizing} (visits : List Visit) : ∀ {a : PriorityQueue},
    (a.visits s visits).1.length = visits.length := by
  induction visits with
  | nil => exact rfl
  | cons v rest ih => exact congrArg (· + 1) ih

theorem visits_append {s : Sizing} (before after : List Visit) : ∀ {a : PriorityQueue},
    (a.visits s (before ++ after)).1 = (a.visits s before).1 ++
      ((a.visits s before).2.visits s after).1 := by
  induction before with
  | nil => exact rfl
  | cons v rest ih => exact congrArg (_ :: ·) ih

/-- The outcome of an errand is what it comes to after those before it. -/
theorem getElem?_visits {s : Sizing} (before after : List Visit) (v : Visit) (a : PriorityQueue) :
    (a.visits s (before ++ v :: after)).1[before.length]? =
      some ((a.visits s before).2.call s v.number v.errand).1 := by
  rw [visits_append, List.getElem?_append_right (Nat.le_of_eq (length_visits before)),
    length_visits, Nat.sub_self]
  rfl

end PriorityQueue

end MappedQueue
